import Mathlib.Data.List.SplitOn
import Mathlib.Data.String.Basic
import Mathlib.Tactic.SplitIfs
import TreeWalk.LineIndex

/-! The lines of a text partition its bytes. A newline byte occurs only where the line break stands as a
character, so the offsets after line breaks are those after newline bytes. The ranges of the lines then are
the pieces of the text between newline bytes, in order: they lie apart by one newline each, start and end
between characters, and joined by newlines they are the text. -/

namespace TreeWalk.LineIndex

/-- The bytes of a text. -/
def bytes (source : String) : List UInt8 := source.toUTF8.data.toList

abbrev newline : UInt8 := 10

/-- The bytes of a line, none where there is no such line. -/
def piece (source : String) (index : LineIndex) (line : Line) : List UInt8 :=
  match index.range? line with
  | some (start, stop) => (bytes source).extract start stop
  | none => []

/-! ### Line breaks in bytes -/

theorem bytes_eq (source : String) : bytes source = source.toList.flatMap String.utf8EncodeChar := by
  have hbytes : source.toUTF8 = (source.toList.flatMap String.utf8EncodeChar).toByteArray :=
    String.utf8Encode_toList.symm
  rw [bytes, hbytes, List.toList_data_toByteArray]

theorem length_bytes (source : String) : (bytes source).length = source.utf8ByteSize := rfl

/-- Only the line break has a newline among its bytes. -/
theorem newline_notMem {c : Char} (h : c ≠ '\n') : newline ∉ String.utf8EncodeChar c := by
  have hval : c.val.toNat ≠ 10 := by
    intro hten
    exact h (Char.ext (UInt32.toNat.inj hten))
  have hbyte (n : Nat) (hn : n % 256 ≠ 10) : newline ≠ UInt8.ofNat n := by
    intro heq
    apply hn
    rw [← UInt8.toNat_ofNat', ← heq]
    rfl
  unfold String.utf8EncodeChar
  dsimp only
  split_ifs with h1 h2 h3 <;> simp only [List.mem_cons, List.not_mem_nil, or_false, not_or]
  · exact hbyte _ (by omega)
  · exact ⟨hbyte _ (by omega), hbyte _ (by omega)⟩
  · exact ⟨hbyte _ (by omega), hbyte _ (by omega), hbyte _ (by omega)⟩
  · exact ⟨hbyte _ (by omega), hbyte _ (by omega), hbyte _ (by omega), hbyte _ (by omega)⟩

/-- The offsets after the newlines among bytes that start at `offset`. -/
def startsAfterNewlines (offset : Nat) : List UInt8 → List Nat
  | [] => []
  | b :: bs =>
    if b = newline then (offset + 1) :: startsAfterNewlines (offset + 1) bs
    else startsAfterNewlines (offset + 1) bs

theorem startsAfterNewlines_append {bs : List UInt8} (h : newline ∉ bs) (offset : Nat)
    (more : List UInt8) :
    startsAfterNewlines offset (bs ++ more) = startsAfterNewlines (offset + bs.length) more := by
  induction bs generalizing offset with
  | nil => rfl
  | cons b bs ih =>
    obtain ⟨hb, hbs⟩ := not_or.1 (List.mem_cons.not.1 h)
    rw [List.cons_append, startsAfterNewlines, if_neg (Ne.symm hb), ih hbs, List.length_cons]
    congr 1
    omega

/-- Lines start alike in characters and in bytes. -/
theorem startsAfterBreaks_eq (offset : Nat) (cs : List Char) :
    startsAfterBreaks offset cs = startsAfterNewlines offset (cs.flatMap String.utf8EncodeChar) := by
  induction cs generalizing offset with
  | nil => rfl
  | cons c cs ih =>
    rw [startsAfterBreaks, List.flatMap_cons]
    split_ifs with hc
    · subst hc
      exact congrArg _ (ih (offset + 1))
    · rw [startsAfterNewlines_append (newline_notMem hc), String.length_utf8EncodeChar]
      exact ih (offset + c.utf8Size)

/-! ### Pieces -/

/-- Where pieces start that follow one another from `offset` on, each with a newline after it. -/
def pieceStarts (offset : Nat) : List (List UInt8) → List Nat
  | [] => []
  | p :: ps => offset :: pieceStarts (offset + p.length + 1) ps

/-- Pieces with a newline after each. -/
def ended (ps : List (List UInt8)) : List UInt8 := ps.flatMap (· ++ [newline])

theorem length_pieceStarts (offset : Nat) (ps : List (List UInt8)) :
    (pieceStarts offset ps).length = ps.length := by
  induction ps generalizing offset with
  | nil => rfl
  | cons p ps ih => rw [pieceStarts, List.length_cons, List.length_cons, ih]

/-- A piece starts after those before it. -/
theorem getElem?_pieceStarts (offset : Nat) (before : List (List UInt8)) (p : List UInt8)
    (after : List (List UInt8)) :
    (pieceStarts offset (before ++ p :: after))[before.length]? = some (offset + (ended before).length) := by
  induction before generalizing offset with
  | nil => rfl
  | cons q before ih =>
    rw [List.cons_append, pieceStarts, List.length_cons, List.getElem?_cons_succ, ih]
    simp [ended]
    omega

theorem pieceStarts_splitOn (offset : Nat) (bs : List UInt8) :
    pieceStarts offset (bs.splitOn newline) = offset :: startsAfterNewlines offset bs := by
  induction bs generalizing offset with
  | nil => rfl
  | cons b bs ih =>
    rw [List.splitOn_cons_eq_if_modifyHead, startsAfterNewlines]
    by_cases hb : b = newline
    · rw [if_pos (beq_iff_eq.2 hb), if_pos hb, pieceStarts, List.length_nil, Nat.add_zero, ih]
    · rw [if_neg (by simpa using hb), if_neg hb]
      obtain ⟨p, ps, hps⟩ := List.exists_cons_of_ne_nil (List.splitOn_ne_nil newline bs)
      have htail := ih (offset + 1)
      rw [hps, pieceStarts] at htail
      rw [hps, List.modifyHead_cons, pieceStarts, List.length_cons, ← (List.cons.inj htail).2]
      congr 2
      omega

theorem starts_ofSource (source : String) :
    (ofSource source).starts = pieceStarts 0 ((bytes source).splitOn newline) := by
  rw [pieceStarts_splitOn, bytes_eq, ← startsAfterBreaks_eq]
  rfl

/-- A text up to one of its pieces, the piece and what follows. -/
theorem intercalate_split (before : List (List UInt8)) (p : List UInt8) (after : List (List UInt8)) :
    [newline].intercalate (before ++ p :: after) =
      ended before ++ [newline].intercalate (p :: after) := by
  induction before with
  | nil => rfl
  | cons q before ih =>
    obtain ⟨r, rs, hrs⟩ : ∃ r rs, before ++ p :: after = r :: rs := List.exists_cons_of_ne_nil (by simp)
    rw [List.cons_append, hrs, List.intercalate_cons_cons, ← hrs, ih]
    simp [ended]

theorem length_splitOn (bs : List UInt8) : (bs.splitOn newline).length = bs.count newline + 1 := by
  induction bs with
  | nil => rfl
  | cons b bs ih =>
    rw [List.splitOn_cons_eq_if_modifyHead, List.count_cons]
    split_ifs with hb
    · rw [List.length_cons, ih]
    · rw [List.length_modifyHead, ih, Nat.add_zero]

theorem newline_notMem_piece {bs p : List UInt8} (h : p ∈ bs.splitOn newline) : newline ∉ p := by
  induction bs generalizing p with
  | nil => simp_all
  | cons b bs ih =>
    rw [List.splitOn_cons_eq_if_modifyHead] at h
    split_ifs at h with hb
    · rcases List.mem_cons.1 h with rfl | hp
      · exact List.not_mem_nil
      · exact ih hp
    · obtain ⟨q, qs, hqs⟩ := List.exists_cons_of_ne_nil (List.splitOn_ne_nil newline bs)
      rw [hqs] at ih
      rw [hqs, List.modifyHead_cons] at h
      rcases List.mem_cons.1 h with rfl | hp
      · refine List.mem_cons.not.2 (not_or.2 ⟨fun heq => hb (by simp [heq]), ih List.mem_cons_self⟩)
      · exact ih (List.mem_cons_of_mem q hp)

/-! ### Ranges -/

/-- A line ends a byte before the next one starts, the last one at the end of the text. -/
theorem range?_of_toNat (index : LineIndex) {line : Line} {i : Nat} (h : line.toNat = i + 1) :
    index.range? line = index.starts[i]?.map fun start =>
      (start, (index.starts[i + 1]?.map (· - 1)).getD index.length) := by
  rw [range?, h]
  cases hstart : index.starts[i]? with
  | none => simp [hstart]
  | some start => cases hnext : index.starts[i + 1]? <;> simp [hstart, hnext]

variable {source : String}

/-- The range of a line is that of a piece, after the pieces before it and their newlines. -/
theorem range?_ofSource {before after : List (List UInt8)} {p : List UInt8}
    (h : (bytes source).splitOn newline = before ++ p :: after) {line : Line}
    (hline : line.toNat = before.length + 1) :
    (ofSource source).range? line = some ((ended before).length, (ended before).length + p.length) := by
  have hstart : (ofSource source).starts[before.length]? = some (ended before).length := by
    rw [starts_ofSource, h, getElem?_pieceStarts, Nat.zero_add]
  have hsource : [newline].intercalate (before ++ p :: after) = bytes source := by
    rw [← h, List.intercalate_splitOn]
  rw [range?_of_toNat _ hline, hstart, Option.map_some]
  cases after with
  | nil =>
    have hnext : (ofSource source).starts[before.length + 1]? = none := by
      rw [starts_ofSource, h, List.getElem?_eq_none_iff, length_pieceStarts]
      simp
    have hlength : (ofSource source).length = (ended before).length + p.length := by
      have hbytes := congrArg List.length hsource
      rw [intercalate_split, List.intercalate_singleton, List.length_append, length_bytes] at hbytes
      exact hbytes.symm
    rw [hnext, hlength]
    rfl
  | cons q after =>
    have hnext : (ofSource source).starts[before.length + 1]? =
        some ((ended before).length + p.length + 1) := by
      have hq := getElem?_pieceStarts 0 (before ++ [p]) q after
      rw [List.append_assoc, List.length_append] at hq
      rw [starts_ofSource, h]
      refine hq.trans ?_
      simp [ended]
      omega
    rw [hnext]
    rfl

theorem exists_split (source : String) (line : Line) (h1 : 1 ≤ line.toNat)
    (h2 : line.toNat ≤ (bytes source).count newline + 1) :
    ∃ before p after, (bytes source).splitOn newline = before ++ p :: after ∧
      line.toNat = before.length + 1 := by
  rw [← length_splitOn] at h2
  obtain ⟨i, hi⟩ := Nat.exists_eq_add_of_le' h1
  have hlt : i < ((bytes source).splitOn newline).length := by omega
  refine ⟨((bytes source).splitOn newline).take i, ((bytes source).splitOn newline)[i],
    ((bytes source).splitOn newline).drop (i + 1), ?_, ?_⟩
  · rw [← List.drop_eq_getElem_cons hlt, List.take_append_drop]
  · rw [List.length_take, Nat.min_eq_left hlt.le, hi]

theorem isSome_range? (line : Line) : ((ofSource source).range? line).isSome ↔
    1 ≤ line.toNat ∧ line.toNat ≤ (bytes source).count newline + 1 := by
  constructor
  · intro h
    cases hline : line.toNat with
    | zero => simp [range?, hline] at h
    | succ i =>
      obtain ⟨start, hstart⟩ := Option.isSome_iff_exists.1 (by
        rwa [range?_of_toNat _ hline, Option.isSome_map] at h)
      have hlt := (List.getElem?_eq_some_iff.1 hstart).1
      rw [starts_ofSource, length_pieceStarts, length_splitOn] at hlt
      omega
  · rintro ⟨h1, h2⟩
    obtain ⟨before, p, after, h, hline⟩ := exists_split source line h1 h2
    rw [range?_ofSource h hline]
    rfl

/-- What a range says about the pieces of the text. -/
theorem split_of_range? {line : Line} {start stop : Nat}
    (h : (ofSource source).range? line = some (start, stop)) :
    ∃ before p after, (bytes source).splitOn newline = before ++ p :: after ∧
      line.toNat = before.length + 1 ∧ start = (ended before).length ∧
      stop = (ended before).length + p.length := by
  have hsome : ((ofSource source).range? line).isSome := by rw [h]; rfl
  obtain ⟨h1, h2⟩ := (isSome_range? line).1 hsome
  obtain ⟨before, p, after, hsplit, hline⟩ := exists_split source line h1 h2
  rw [range?_ofSource hsplit hline] at h
  obtain ⟨rfl, rfl⟩ := Prod.mk.inj (Option.some.inj h)
  exact ⟨before, p, after, hsplit, hline, rfl, rfl⟩

/-- A text is what is before a piece, the piece and what follows it. -/
theorem bytes_of_split {before after : List (List UInt8)} {p : List UInt8}
    (h : (bytes source).splitOn newline = before ++ p :: after) :
    bytes source = ended before ++ (p ++ after.flatMap (newline :: ·)) := by
  have hjoin (p : List UInt8) : [newline].intercalate (p :: after) = p ++ after.flatMap (newline :: ·) := by
    clear h
    induction after generalizing p with
    | nil => simp
    | cons q after ih => simp [List.intercalate_cons_cons, ih q]
  rw [← hjoin, ← intercalate_split, ← h, List.intercalate_splitOn]

theorem extract_of_split {before after : List (List UInt8)} {p : List UInt8}
    (h : (bytes source).splitOn newline = before ++ p :: after) :
    (bytes source).extract (ended before).length ((ended before).length + p.length) = p := by
  rw [bytes_of_split h, List.extract, List.drop_left, Nat.add_sub_cancel_left, List.take_left]

theorem piece_ofSource {before after : List (List UInt8)} {p : List UInt8}
    (h : (bytes source).splitOn newline = before ++ p :: after) {line : Line}
    (hline : line.toNat = before.length + 1) : piece source (ofSource source) line = p := by
  rw [piece, range?_ofSource h hline]
  exact extract_of_split h

/-- A piece and the next have a newline between them. -/
theorem separated_of_split {before after before' after' : List (List UInt8)} {p q : List UInt8}
    (h : (bytes source).splitOn newline = before ++ p :: after)
    (h' : (bytes source).splitOn newline = before' ++ q :: after')
    (hlength : before'.length = before.length + 1) :
    (ended before').length = (ended before).length + p.length + 1 ∧
      (bytes source)[(ended before).length + p.length]? = some newline := by
  have hall : before' ++ q :: after' = (before ++ [p]) ++ after := by
    rw [← h', h, List.append_assoc, List.singleton_append]
  obtain ⟨rfl, rfl⟩ := List.append_inj hall (by simpa using hlength)
  refine ⟨by simp [ended]; omega, ?_⟩
  rw [bytes_of_split h, ← List.append_assoc, ← List.length_append, List.getElem?_append_right le_rfl]
  simp

/-- The lines up to a line are the pieces up to it. -/
theorem map_piece {before after : List (List UInt8)} {p : List UInt8}
    (h : (bytes source).splitOn newline = before ++ p :: after) {line : Line}
    (hline : line.toNat = before.length + 1) :
    ((List.range line.toNat).map fun i => piece source (ofSource source) (UInt32.ofNat (i + 1))) =
      before ++ [p] := by
  refine List.ext_getElem (by simp [hline]) fun i _ hi => ?_
  have hsize := UInt32.toNat_lt_size line
  have hlength := congrArg List.length h
  rw [length_splitOn, List.length_append, List.length_cons] at hlength
  rw [List.length_append, List.length_singleton] at hi
  have hnumber : (UInt32.ofNat (i + 1)).toNat = i + 1 := UInt32.toNat_ofNat_of_lt' (by omega)
  obtain ⟨earlier, q, later, hq, hline'⟩ :=
    exists_split source (UInt32.ofNat (i + 1)) (by omega) (by omega)
  have hat : (before ++ [p])[i]? = some q := by
    have hall : (before ++ [p]) ++ after = earlier ++ q :: later := by
      rw [← hq, h, List.append_assoc, List.singleton_append]
    have hleft : ((before ++ [p]) ++ after)[i]? = (before ++ [p])[i]? :=
      List.getElem?_append_left (by simpa using hi)
    have hi' : i = earlier.length := by omega
    rw [← hleft, hall, hi']
    simp
  rw [List.getElem_map, List.getElem_range, piece_ofSource hq hline']
  exact (List.getElem?_eq_some_iff.1 hat).2.symm

theorem intercalate_piece {before after : List (List UInt8)} {p : List UInt8}
    (h : (bytes source).splitOn newline = before ++ p :: after) {line : Line}
    (hline : line.toNat = before.length + 1) :
    [newline].intercalate ((List.range line.toNat).map fun i =>
      piece source (ofSource source) (UInt32.ofNat (i + 1))) = ended before ++ p := by
  rw [map_piece h hline, intercalate_split, List.intercalate_singleton]

/-! ### Character boundaries -/

/-- A line starts after a line break. -/
theorem mem_startsAfterBreaks {offset next : Nat} {cs : List Char}
    (h : next ∈ startsAfterBreaks offset cs) :
    ∃ before after, cs = before ++ '\n' :: after ∧ next = offset + String.utf8Len before + 1 := by
  induction cs generalizing offset with
  | nil => simp [startsAfterBreaks] at h
  | cons c cs ih =>
    have hlater (hnext : next ∈ startsAfterBreaks (offset + c.utf8Size) cs) :
        ∃ before after, c :: cs = before ++ '\n' :: after ∧ next = offset + String.utf8Len before + 1 := by
      obtain ⟨before, after, rfl, rfl⟩ := ih hnext
      refine ⟨c :: before, after, rfl, ?_⟩
      rw [String.utf8Len]
      omega
    rw [startsAfterBreaks] at h
    split_ifs at h with hc
    · rcases List.mem_cons.1 h with rfl | hnext
      · subst hc
        exact ⟨[], cs, rfl, rfl⟩
      · exact hlater hnext
    · exact hlater h

/-- The position after some characters of a text lies between characters. -/
theorem isValid_utf8Len (before after : List Char) (h : source.toList = before ++ after) :
    String.Pos.Raw.IsValid source ⟨String.utf8Len before⟩ := by
  rw [String.Pos.Raw.isValid_iff_exists_append]
  refine ⟨String.ofList before, String.ofList after, ?_, ?_⟩
  · rw [← String.ofList_append, ← h, String.ofList_toList]
  · rw [String.rawEndPos, String.utf8ByteSize_ofList]

/-- The first line starts the text, any other one after a line break. -/
theorem isValid_start {i start : Nat} (h : (ofSource source).starts[i]? = some start) :
    String.Pos.Raw.IsValid source ⟨start⟩ := by
  rcases List.mem_cons.1 (List.mem_of_getElem? h) with rfl | hnext
  · exact isValid_utf8Len [] source.toList rfl
  · obtain ⟨before, after, hsource, rfl⟩ := mem_startsAfterBreaks hnext
    have hbreak : source.toList = (before ++ ['\n']) ++ after := by simp [hsource]
    have hvalid := isValid_utf8Len _ _ hbreak
    rw [String.utf8Len_append] at hvalid
    rwa [Nat.zero_add]

theorem isValid_stop (i : Nat) :
    String.Pos.Raw.IsValid source
      ⟨((ofSource source).starts[i + 1]?.map (· - 1)).getD (ofSource source).length⟩ := by
  cases hnext : (ofSource source).starts[i + 1]? with
  | none =>
    have hvalid := isValid_utf8Len source.toList [] (List.append_nil _).symm
    rwa [← String.utf8ByteSize_ofList, String.ofList_toList] at hvalid
  | some next =>
    obtain ⟨before, after, hsource, rfl⟩ := mem_startsAfterBreaks (List.mem_of_getElem? hnext)
    have hvalid := isValid_utf8Len _ _ hsource
    simpa using hvalid

theorem within_of_range? {line : Line} {start stop : Nat}
    (h : (ofSource source).range? line = some (start, stop)) :
    start ≤ stop ∧ stop ≤ source.utf8ByteSize ∧
      String.Pos.Raw.IsValid source ⟨start⟩ ∧ String.Pos.Raw.IsValid source ⟨stop⟩ := by
  obtain ⟨before, p, after, hsplit, hline, hstart, hstop⟩ := split_of_range? h
  have hlength := congrArg List.length (bytes_of_split hsplit)
  rw [length_bytes, List.length_append, List.length_append] at hlength
  rw [range?_of_toNat _ hline] at h
  obtain ⟨first, hfirst, hpair⟩ := Option.map_eq_some_iff.1 h
  obtain ⟨rfl, hend⟩ := Prod.mk.inj hpair
  refine ⟨by omega, by omega, isValid_start hfirst, ?_⟩
  rw [← hend]
  exact isValid_stop before.length

/-! ### The partition -/

/-- An index of the lines of a text. -/
structure Partitions (source : String) (index : LineIndex) : Prop where
  /-- There is one line more than newlines, and the first has the number one. -/
  isSome : ∀ line : Line, (index.range? line).isSome ↔
    1 ≤ line.toNat ∧ line.toNat ≤ (bytes source).count newline + 1
  /-- A range lies in the text, from one place between characters to another. -/
  within : ∀ line start stop, index.range? line = some (start, stop) →
    start ≤ stop ∧ stop ≤ source.utf8ByteSize ∧
      String.Pos.Raw.IsValid source ⟨start⟩ ∧ String.Pos.Raw.IsValid source ⟨stop⟩
  /-- It selects the piece with its number of the text split at newlines. -/
  selects : ∀ line start stop, index.range? line = some (start, stop) →
    ((bytes source).splitOn newline)[line.toNat - 1]? = some ((bytes source).extract start stop) ∧
      newline ∉ (bytes source).extract start stop
  /-- A line and the next are one byte apart, which is a newline. -/
  separated : ∀ line next start stop start' stop', next.toNat = line.toNat + 1 →
    index.range? line = some (start, stop) → index.range? next = some (start', stop') →
      start' = stop + 1 ∧ (bytes source)[stop]? = some newline
  /-- The lines up to a line are the text up to its end. -/
  joined : ∀ line start stop, index.range? line = some (start, stop) →
    [newline].intercalate ((List.range line.toNat).map fun i => piece source index (UInt32.ofNat (i + 1))) =
      (bytes source).take stop
  /-- All lines are the text. -/
  whole : ∀ last : Line, last.toNat = (bytes source).count newline + 1 →
    [newline].intercalate ((List.range last.toNat).map fun i => piece source index (UInt32.ofNat (i + 1))) =
      bytes source
  /-- Before a line that is not the first there is a byte. -/
  pos : ∀ next ∈ index.starts.tail, 1 ≤ next

/-- The index of a text partitions it into its lines. -/
theorem ofSource_partitions (source : String) : Partitions source (ofSource source) where
  isSome := isSome_range?
  within _ _ _ h := within_of_range? h
  selects line start stop h := by
    obtain ⟨before, p, after, hsplit, hline, rfl, rfl⟩ := split_of_range? h
    rw [extract_of_split hsplit, hsplit, hline]
    have hmem : p ∈ (bytes source).splitOn newline := by simp [hsplit]
    exact ⟨by simp, newline_notMem_piece hmem⟩
  separated line next start stop start' stop' hnext h h' := by
    obtain ⟨before, p, after, hsplit, hline, rfl, rfl⟩ := split_of_range? h
    obtain ⟨before', q, after', hsplit', hline', rfl, rfl⟩ := split_of_range? h'
    exact separated_of_split hsplit hsplit' (by omega)
  joined line start stop h := by
    obtain ⟨before, p, after, hsplit, hline, rfl, rfl⟩ := split_of_range? h
    rw [intercalate_piece hsplit hline, bytes_of_split hsplit, ← List.append_assoc, ← List.length_append,
      List.take_left]
  whole last hlast := by
    obtain ⟨before, p, after, hsplit, hline⟩ := exists_split source last (by omega) hlast.le
    have hlength := congrArg List.length hsplit
    rw [length_splitOn, List.length_append, List.length_cons] at hlength
    obtain rfl : after = [] := List.length_eq_zero_iff.1 (by omega)
    rw [intercalate_piece hsplit hline, bytes_of_split hsplit]
    simp
  pos next hnext := by
    obtain ⟨before, after, -, rfl⟩ := mem_startsAfterBreaks hnext
    omega

example :
    let index := ofSource "éé\n\nx\n"
    [0, 1, 2, 3, 4, 5].map index.range? =
      [none, some (0, 4), some (5, 5), some (6, 7), some (8, 8), none] := by decide

end TreeWalk.LineIndex
