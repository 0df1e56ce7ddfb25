import MeowMeowOS.Fat16Entries

/-! Long names survive the way to the disk: the entries that are written for a
name of printable characters are read back, last part first, into the same
name, and the short entry behind them carries the checksum they name. -/
namespace MeowMeowOS.LongNames
open ByteMemory Fat16Disk Fat16Names Fat16Directory Fat16Geometry Fat16Scan Fat16Entries

def Printable (c : UInt8) : Prop := 0x20 ≤ c ∧ c < 0x7F

instance (c : UInt8) : Decidable (Printable c) := inferInstanceAs (Decidable (_ ∧ _))

/-- 1 to 255 printable ASCII characters. -/
structure PrintableName (name : CString) : Prop where
  nonempty : name ≠ []
  short : name.length ≤ 255
  printable : ∀ c ∈ name, Printable c

/-- At most 255 bytes that a long-name entry holds: no zero, which ends a name,
and no 0xFF, which sign extension turns into the padding behind it. -/
structure StorableName (name : CString) : Prop where
  short : name.length ≤ 255
  storable : ∀ c ∈ name, c ≠ 0 ∧ c ≠ 0xFF

theorem PrintableName.stored (printable : PrintableName name) : StorableName name where
  short := printable.short
  storable := by
    intro c member
    obtain ⟨low, high⟩ := printable.printable c member
    refine ⟨fun zero => ?_, fun last => ?_⟩
    · exact absurd (zero ▸ low) (by decide)
    · exact absurd (last ▸ high) (by decide)

/-! ## One entry -/

section Entry
variable {name : CString} {order : Nat} {checksum : UInt8} {isLast : Bool}

/-- The characters of an entry do not overlap. -/
theorem charOffset_apart : ∀ j < 13, ∀ k < 13, j ≠ k →
    charOffset j + 2 ≤ charOffset k ∨ charOffset k + 2 ≤ charOffset j := by
  decide

theorem nameUnit_lt (name : CString) (i : Nat) : nameUnit name i < 2 ^ 16 := by
  unfold nameUnit
  cases name[i]? with
  | none =>
    dsimp only
    split <;> omega
  | some c =>
    have := c.toNat_lt
    dsimp only
    split <;> omega

/-- The first `n` characters are in their places, every other byte is kept. -/
theorem foldl_chars (e : Slot) (units : Nat → Nat) (le : n ≤ 13) :
    (∀ k < n, readHalf ((List.range n).foldl (fun e k => writeHalf e (charOffset k) (units k)) e)
        (charOffset k) = units k % 2 ^ 16) ∧
      ∀ b, (∀ k < 13, b ≠ charOffset k ∧ b ≠ charOffset k + 1) →
        (List.range n).foldl (fun e k => writeHalf e (charOffset k) (units k)) e b = e b := by
  induction n with
  | zero => exact ⟨fun k small => absurd small (Nat.not_lt_zero k), fun _ _ => rfl⟩
  | succ n ih =>
    obtain ⟨chars, others⟩ := ih (by omega)
    simp only [List.range_succ, List.foldl_append, List.foldl_cons, List.foldl_nil]
    refine ⟨fun k small => ?_, fun b apart => ?_⟩
    · by_cases last : k = n
      · rw [last, readHalf_writeHalf]
      · rw [readHalf_writeHalf_apart _ _ _ _ (charOffset_apart n (by omega) k (by omega) (Ne.symm last))]
        exact chars k (by omega)
    · obtain ⟨first, second⟩ := apart n (by omega)
      rw [writeHalf, if_neg first, if_neg second]
      exact others b apart

theorem lfnChar_populate (small : k < 13) :
    lfnChar (populateLfnEntry name order checksum isLast) k = nameUnit name ((order - 1) * 13 + k) := by
  unfold lfnChar populateLfnEntry
  rw [(foldl_chars _ _ (Nat.le_refl 13)).1 k small]
  exact Nat.mod_eq_of_lt (nameUnit_lt _ _)

/-- The bytes between the characters: order, attributes and checksum. -/
theorem populate_fields (name : CString) (order : Nat) (checksum : UInt8) (isLast : Bool) :
    populateLfnEntry name order checksum isLast 0 =
        UInt8.ofNat (order ||| if isLast then 0x40 else 0x00) ∧
    populateLfnEntry name order checksum isLast 11 = 0x0F ∧
    populateLfnEntry name order checksum isLast 13 = checksum := by
  unfold populateLfnEntry
  refine ⟨?_, ?_, ?_⟩
  · rw [(foldl_chars _ _ (Nat.le_refl 13)).2 0 (by decide)]
    simp [writeHalf, writeByte]
  · rw [(foldl_chars _ _ (Nat.le_refl 13)).2 11 (by decide)]
    simp [writeHalf, writeByte]
  · rw [(foldl_chars _ _ (Nat.le_refl 13)).2 13 (by decide)]
    simp [writeHalf, writeByte]

theorem lfnChar_trim (e : Slot) (small : k < 13) : lfnChar (trim e) k = lfnChar e k := by
  have inside : ∀ k < 13, charOffset k + 1 < 32 := by decide
  have bound := inside k small
  simp [lfnChar, readHalf, trim, bound, show charOffset k < 32 by omega]

/-- An entry that is part of a long name in the eyes of the directory loop. -/
def LongEntry (e : Slot) : Prop := neverUsed e = false ∧ deleted e = false ∧ isLongName e = true

theorem order_populate (name : CString) (checksum : UInt8) (isLast : Bool) (first : 0 < order)
    (few : order < 32) :
    (populateLfnEntry name order checksum isLast 0).toNat % 32 = order ∧
      populateLfnEntry name order checksum isLast 0 ≠ 0x00 ∧
      populateLfnEntry name order checksum isLast 0 ≠ 0xE5 := by
  rw [(populate_fields name order checksum isLast).1]
  have all : ∀ order < 32, 0 < order → ∀ last : Bool,
      (UInt8.ofNat (order ||| if last then 0x40 else 0x00)).toNat % 32 = order ∧
        UInt8.ofNat (order ||| if last then 0x40 else 0x00) ≠ 0x00 ∧
        UInt8.ofNat (order ||| if last then 0x40 else 0x00) ≠ 0xE5 := by decide
  exact all order few first isLast

theorem longEntry_populate (name : CString) (checksum : UInt8) (isLast : Bool) (first : 0 < order)
    (few : order < 32) : LongEntry (trim (populateLfnEntry name order checksum isLast)) := by
  obtain ⟨-, notFree, notDeleted⟩ := order_populate name checksum isLast first few
  refine ⟨?_, ?_, ?_⟩
  · simpa [neverUsed, trim] using notFree
  · simpa [deleted, trim] using notDeleted
  · rw [isLongName_trim]
    simp [isLongName, attributes, (populate_fields name order checksum isLast).2.1]

end Entry

/-! ## Short names -/

section Short
variable {name : CString}

theorem printable_toUpper (printable : Printable c) : Printable (toUpper c) := by
  obtain ⟨low, high⟩ := printable
  unfold toUpper
  split
  · rename_i lower
    obtain ⟨above, below⟩ := lower
    rw [UInt8.le_iff_toNat_le] at above below
    have shifted : (c - 0x20).toNat = c.toNat - 0x20 :=
      UInt8.toNat_sub_of_le c 0x20 (UInt8.le_iff_toNat_le.mpr (Nat.le_trans (by decide) above))
    refine ⟨?_, ?_⟩
    · rw [UInt8.le_iff_toNat_le, shifted]
      exact Nat.le_trans (by decide) (Nat.sub_le_sub_right above _)
    · rw [UInt8.lt_iff_toNat_lt, shifted]
      exact Nat.lt_of_le_of_lt (Nat.sub_le_sub_right below _) (by decide)
  · exact ⟨low, high⟩

theorem padded_length (n : Nat) (s : CString) : (padded n s).length = n := by
  simp [padded]

theorem printable_padded (n : Nat) (printable : ∀ c ∈ s, Printable c) : ∀ c ∈ padded n s, Printable c := by
  intro c member
  rcases List.mem_append.mp (List.mem_of_mem_take member) with inside | space
  · exact printable c inside
  · rw [List.eq_of_mem_replicate space]
    decide

theorem shortNameFor_length (name : CString) : (shortNameFor name).length = 11 := by
  unfold shortNameFor generateShortName formatFilenameToFat dotName dotDotName
  dsimp only
  split
  · rw [List.length_append, padded_length, padded_length]
  · split
    · exact padded_length _ _
    · split
      · exact padded_length _ _
      · rw [List.length_append, padded_length, padded_length]

/-- The digit behind the tilde of a generated name. -/
theorem printable_digit (hash : Int) : Printable (UInt8.ofNat (0x31 + hash.tmod 9).toNat) := by
  have all : ∀ n < 58, 41 ≤ n → Printable (UInt8.ofNat n) := by decide
  have above := Int.tmod_lt_of_pos hash (b := 9) (by decide)
  have below := Int.lt_tmod_of_pos hash (b := 9) (by decide)
  exact all _ (by omega) (by omega)

/-- A short name consists of printable characters, so no byte of it is taken
for the mark of a free entry. -/
theorem shortNameFor_printable (printable : PrintableName name) : ∀ c ∈ shortNameFor name, Printable c := by
  have chars := printable.printable
  have upper : ∀ part : CString, (∀ c ∈ part, c ∈ name) → ∀ c ∈ part.map toUpper, Printable c := by
    intro part inside c member
    obtain ⟨d, from', rfl⟩ := List.mem_map.mp member
    exact printable_toUpper (chars d (inside d from'))
  unfold shortNameFor
  split
  · unfold generateShortName
    dsimp only
    intro c member
    rcases List.mem_append.mp member with front | back
    · refine printable_padded 8 ?_ c front
      intro c member
      rcases List.mem_append.mp member with base | tail
      · have inside := List.mem_of_mem_filter (List.mem_of_mem_take base)
        apply upper _ _ c inside
        intro d member
        exact (List.dropWhile_sublist _).subset ((List.takeWhile_sublist _).subset member)
      · rcases List.mem_cons.mp tail with rfl | last
        · decide
        · rw [List.mem_singleton.mp last]
          exact printable_digit _
    · refine printable_padded 3 ?_ c back
      intro c member
      apply upper _ _ c (List.mem_of_mem_take member)
      intro d member
      unfold extensionOf at member
      dsimp only at member
      split at member
      · exact List.mem_reverse.mp ((List.takeWhile_sublist _).subset (List.mem_reverse.mp member))
      · cases member
  · unfold formatFilenameToFat
    dsimp only
    split
    · decide +kernel
    · split
      · decide +kernel
      · intro c member
        rcases List.mem_append.mp member with front | back
        · apply printable_padded 8 _ c front
          apply upper
          intro d member
          exact (List.takeWhile_sublist _).subset (List.mem_of_mem_take member)
        · apply printable_padded 3 _ c back
          apply upper
          intro d member
          exact (List.dropWhile_sublist _).subset (List.mem_of_mem_drop (List.mem_of_mem_take member))

end Short

/-! ## The name back from its entries -/

/-- The buffer once the entries down to position `lo` of the name are read. -/
def nameFrom (name : CString) (lo : Nat) : Mem := fun i => if lo ≤ i then name.getD i 0 else 0

section Name
variable {name : CString}

/-- A unit of the name is neither of the values that end it, and its low byte
is the character. -/
theorem nameUnit_inside (stored : StorableName name) (inside : i < name.length) :
    ¬ (nameUnit name i = 0x0000 ∨ nameUnit name i = 0xFFFF) ∧
      UInt8.ofNat (nameUnit name i) = name.getD i 0 := by
  obtain ⟨nonzero, unpadded⟩ := stored.storable _ (List.getElem_mem inside)
  have found : name[i]? = some name[i] := List.getElem?_eq_getElem inside
  have get : name.getD i 0 = name[i] := by rw [List.getD_eq_getElem?_getD, found, Option.getD_some]
  have small := name[i].toNat_lt
  have zero : name[i].toNat ≠ 0 := fun zero => nonzero (UInt8.toNat_inj.mp zero)
  have last : name[i].toNat ≠ 0xFF := fun last => unpadded (UInt8.toNat_inj.mp last)
  rw [nameUnit, found, get]
  dsimp only
  split
  · exact ⟨by omega, UInt8.ofNat_toNat⟩
  · refine ⟨by omega, ?_⟩
    apply UInt8.toNat_inj.mp
    rw [UInt8.toNat_ofNat']
    omega

theorem nameUnit_end : nameUnit name name.length = 0 := by
  simp [nameUnit]

/-- One entry's characters, from character `k` on. -/
theorem extractFrom_name (stored : StorableName name) (e : Slot)
    (chars : ∀ k < 13, lfnChar e k = nameUnit name (idx + k)) (count : n + k = 13)
    (reached : idx + k ≤ name.length) (clear : ∀ i, name.length ≤ i → buf i = 0) :
    extractFrom e idx n k buf = fun i => if idx + k ≤ i ∧ i < idx + 13 then name.getD i 0 else buf i := by
  have short := stored.short
  induction n generalizing k buf with
  | zero =>
    funext i
    rw [extractFrom, if_neg (by omega)]
  | succ n ih =>
    rw [extractFrom, chars k (by omega)]
    by_cases inside : idx + k < name.length
    · obtain ⟨goesOn, char⟩ := nameUnit_inside stored inside
      have put : putChar buf (idx + k) (UInt8.ofNat (nameUnit name (idx + k))) =
          writeByte buf (idx + k) (name.getD (idx + k) 0) := by
        rw [putChar, if_pos (by omega), char]
      rw [if_neg goesOn, put, ih (by omega) (by omega)]
      · funext i
        by_cases here : i = idx + k
        · subst here
          rw [if_neg (by omega), if_pos (by omega)]
          simp [writeByte]
        · simp only [writeByte, if_neg here]
          by_cases more : idx + (k + 1) ≤ i ∧ i < idx + 13
          · rw [if_pos more, if_pos (by omega)]
          · rw [if_neg more, if_neg (by omega)]
      · intro i behind
        rw [writeByte, if_neg (by omega)]
        exact clear i behind
    · -- the zero behind the name ends the loop
      have ended : idx + k = name.length := by omega
      rw [ended, nameUnit_end]
      simp only [true_or, ↓reduceIte]
      funext i
      rw [putChar, if_pos (by omega)]
      by_cases behind : name.length ≤ i ∧ i < idx + 13
      · have none : name.getD i 0 = 0 := by
          rw [List.getD_eq_getElem?_getD, List.getElem?_eq_none behind.1, Option.getD_none]
        rw [if_pos behind, none]
        by_cases here : i = name.length
        · simp [writeByte, here]
        · rw [writeByte, if_neg here]
          exact clear i behind.1
      · rw [if_neg behind, writeByte]
        by_cases here : i = name.length
        · rw [if_pos here, clear i (by omega)]
        · rw [if_neg here]

/-- An entry adds its 13 characters in front of those that are there. -/
theorem extractLfnChars_populate (stored : StorableName name) (first : 0 < order) (few : order < 32)
    (needed : (order - 1) * 13 < name.length) (checksum : UInt8) (isLast : Bool) :
    extractLfnChars (trim (populateLfnEntry name order checksum isLast)) (nameFrom name (order * 13)) =
      nameFrom name ((order - 1) * 13) := by
  have number : (trim (populateLfnEntry name order checksum isLast) 0).toNat % 32 = order :=
    (order_populate name checksum isLast first few).1
  unfold extractLfnChars
  dsimp only
  rw [number, if_neg (by omega), extractFrom_name stored _
    (fun k small => (lfnChar_trim _ small).trans (lfnChar_populate small)) rfl (by omega)]
  · have next : (order - 1) * 13 + 13 = order * 13 := by omega
    funext i
    simp only [nameFrom, next, Nat.add_zero]
    by_cases here : (order - 1) * 13 ≤ i ∧ i < order * 13
    · rw [if_pos here, if_pos here.1]
    · rw [if_neg here]
      by_cases later : order * 13 ≤ i
      · rw [if_pos later, if_pos (by omega)]
      · rw [if_neg later, if_neg (by omega)]
  · intro i behind
    have none : name.getD i 0 = 0 := by
      rw [List.getD_eq_getElem?_getD, List.getElem?_eq_none behind, Option.getD_none]
    simp only [nameFrom, none, ite_self]

/-- The whole name, once all entries are read. -/
theorem lfnString_nameFrom (stored : StorableName name) : lfnString (nameFrom name 0) = name := by
  have short := stored.short
  have bytes : (List.range 256).map (nameFrom name 0) = name ++ List.replicate (256 - name.length) 0 := by
    apply List.ext_getElem
    · simp only [List.length_map, List.length_range, List.length_append, List.length_replicate]
      omega
    · intro i inside inside'
      simp only [List.getElem_map, List.getElem_range, nameFrom, Nat.zero_le, ↓reduceIte]
      by_cases here : i < name.length
      · rw [List.getElem_append_left here, List.getD_eq_getElem?_getD, List.getElem?_eq_getElem here,
          Option.getD_some]
      · rw [List.getElem_append_right (by omega), List.getElem_replicate, List.getD_eq_getElem?_getD,
          List.getElem?_eq_none (by omega), Option.getD_none]
  have chars : ∀ c ∈ name, decide (c ≠ 0) = true := by
    intro c member
    rw [decide_eq_true_eq]
    exact (stored.storable c member).1
  have more : 256 - name.length = (255 - name.length) + 1 := by omega
  rw [lfnString, bytes, List.takeWhile_append_of_pos chars, more, List.replicate_succ]
  simp

end Name

/-! ## The loop over the entries of a name -/

/-- No long name is pending. -/
structure Clean (scan : Scan) : Prop where
  buf : scan.lfnBuf = emptyBuf
  start : scan.lfnStart = none

theorem clean_initial : Clean Scan.initial := ⟨rfl, rfl⟩

theorem clean_cleared (scan : Scan) : Clean scan.cleared := ⟨rfl, rfl⟩

section Loop
variable {p : Nat} {scan : Scan} {name : CString}

/-- Without a pending name there is nothing to throw away. -/
theorem checked_clean (clean : Clean scan) (e : Slot) : scan.checked e = scan := by
  rw [Scan.checked, if_neg]
  rw [clean.buf]
  exact fun both => both.1 rfl

/-- The checksum of an earlier name plays no role. -/
theorem visits_clean (clean : Clean scan) (slots : List Slot) :
    (visits p scan slots).1 = (visits p Scan.initial slots).1 := by
  induction slots generalizing p scan with
  | nil => rfl
  | cons e rest ih =>
    by_cases used : neverUsed e = false
    · by_cases kept : deleted e = false
      · by_cases short : isLongName e = false
        · rw [visits_inUse ⟨used, kept, short⟩, visits_inUse ⟨used, kept, short⟩, ih (clean_cleared _),
            ih (clean_cleared (Scan.initial.checked e)), visitOf, visitOf, checked_clean clean,
            checked_clean clean_initial, clean.buf, clean.start]
          rfl
        · have long : isLongName e = true := by simpa using short
          have same : scan.longName p e = Scan.initial.longName p e := by
            rw [Scan.longName, Scan.longName, clean.buf, clean.start]
            rfl
          rw [visits_longName used kept long, visits_longName used kept long, same]
      · have gone : deleted e = true := by simpa using kept
        rw [visits_deleted used gone, visits_deleted used gone, ih (clean_cleared _),
          ih (clean_cleared Scan.initial)]
    · have never : neverUsed e = true := by simpa using used
      rw [visits_neverUsed never, visits_neverUsed never]

/-- Free entries are passed over, and nothing is visited behind an end mark
when only free ones follow. -/
theorem visits_free (clean : Clean scan) (free : ∀ e ∈ gap, isFreeSlot e = true)
    (ended : (∃ e ∈ gap, neverUsed e = true) → ∀ e ∈ after, isFreeSlot e = true) :
    (visits p scan (gap ++ after)).1 = (visits (p + gap.length) Scan.initial after).1 := by
  -- free entries alone lead to no visit
  have nothing : ∀ slots : List Slot, (∀ e ∈ slots, isFreeSlot e = true) → ∀ p scan,
      (visits p scan slots).1 = [] := by
    intro slots allFree p scan
    apply List.eq_nil_iff_forall_not_mem.mpr
    intro visit member
    obtain ⟨k, found, -, ⟨used, kept, -⟩, -⟩ := visits_mem member
    have isFree := allFree _ (List.mem_of_getElem? found)
    rw [isFreeSlot, used, kept] at isFree
    exact absurd isFree (by decide)
  induction gap generalizing p scan with
  | nil => exact visits_clean clean after
  | cons e rest ih =>
    have free' : ∀ e ∈ rest, isFreeSlot e = true := fun e member => free e (List.mem_cons_of_mem _ member)
    have here := free e List.mem_cons_self
    by_cases used : neverUsed e = false
    · have gone : deleted e = true := by simpa [isFreeSlot, used] using here
      have shift : p + (e :: rest).length = p + 1 + rest.length := by
        rw [List.length_cons]
        omega
      rw [List.cons_append, visits_deleted used gone, shift]
      apply ih (clean_cleared scan) free'
      rintro ⟨e', member, never⟩
      exact ended ⟨e', List.mem_cons_of_mem _ member, never⟩
    · have never : neverUsed e = true := by simpa using used
      rw [List.cons_append, visits_neverUsed never,
        nothing after (ended ⟨e, List.mem_cons_self, never⟩)]

/-- The entries of a name, read one after the other from the last part on. -/
theorem visits_parts (stored : StorableName name) (checksum : UInt8) (flag : Nat → Bool)
    (needed : (parts - 1) * 13 < name.length) (buffer : scan.lfnBuf = nameFrom name (parts * 13))
    (sum : parts = 0 → scan.lfnChksum = checksum) (rest : List Slot) :
    ∃ scan', visits p scan ((List.range parts).map (fun i =>
        trim (populateLfnEntry name (parts - i) checksum (flag i))) ++ rest) = visits (p + parts) scan' rest ∧
      scan'.lfnBuf = nameFrom name 0 ∧ scan'.lfnChksum = checksum := by
  have short := stored.short
  induction parts generalizing p scan flag with
  | zero => exact ⟨scan, rfl, by simpa using buffer, sum rfl⟩
  | succ parts ih =>
    have few : parts + 1 < 32 := by omega
    obtain ⟨used, kept, long⟩ := longEntry_populate name checksum (flag 0) (Nat.succ_pos parts) few
    rw [List.range_succ_eq_map, List.map_cons, List.map_map, List.cons_append, Nat.sub_zero,
      visits_longName used kept long]
    generalize next : scan.longName p (trim (populateLfnEntry name (parts + 1) checksum (flag 0))) = scan1
    have buffer1 : scan1.lfnBuf = nameFrom name (parts * 13) := by
      rw [← next, Scan.longName, buffer]
      exact extractLfnChars_populate stored (Nat.succ_pos parts) few needed checksum (flag 0)
    have sum1 : scan1.lfnChksum = checksum := by
      rw [← next]
      exact (populate_fields name (parts + 1) checksum (flag 0)).2.2
    obtain ⟨scan', same, whole⟩ := ih (p := p + 1) (fun i => flag (i + 1))
      (Nat.lt_of_le_of_lt (Nat.mul_le_mul_right 13 (Nat.sub_le parts 1)) needed) buffer1 (fun _ => sum1)
    have later : (List.range parts).map ((fun i => trim (populateLfnEntry name (parts + 1 - i) checksum
        (flag i))) ∘ Nat.succ) = (List.range parts).map (fun i =>
        trim (populateLfnEntry name (parts - i) checksum (flag (i + 1)))) := by
      apply List.map_congr_left
      intro i _
      simp only [Function.comp_apply, Nat.succ_eq_add_one, Nat.add_sub_add_right]
    have shift : p + (parts + 1) = p + 1 + parts := by omega
    rw [later, shift]
    exact ⟨scan', same, whole⟩

/-- The short entry of a printable name is in use. -/
theorem shortEntry_inUse (printable : PrintableName name) (kind : attr ≠ 0x0F) (cluster size : Nat) :
    InUse (trim (shortEntry (shortNameFor name) attr cluster size)) := by
  obtain ⟨bytes, kindByte, -, -⟩ := shortEntry_fields (shortNameFor name) attr cluster size
  have length := shortNameFor_length name
  have char : Printable ((shortNameFor name).getD 0 0) := by
    rw [List.getD_eq_getElem?_getD, List.getElem?_eq_getElem (by omega), Option.getD_some]
    exact shortNameFor_printable printable _ (List.getElem_mem _)
  have first : trim (shortEntry (shortNameFor name) attr cluster size) 0 = (shortNameFor name).getD 0 0 :=
    bytes 0 (by decide)
  have notMark : ∀ c : UInt8, Printable c → c ≠ 0x00 ∧ c ≠ 0xE5 := by
    rintro c ⟨low, high⟩
    exact ⟨fun zero => absurd (zero ▸ low) (by decide), fun mark => absurd (mark ▸ high) (by decide)⟩
  refine ⟨?_, ?_, ?_⟩
  · rw [neverUsed, first, decide_eq_false_iff_not]
    exact (notMark _ char).1
  · rw [deleted, first, decide_eq_false_iff_not]
    exact (notMark _ char).2
  · rw [isLongName_trim, isLongName, kindByte, decide_eq_false_iff_not]
    exact kind

/-- What the loop makes of the entries of a name: one visit, under that name
if it is stored as a long one. -/
theorem visits_nameEntries (stored : StorableName name)
    (inUse : InUse (trim (shortEntry (shortNameFor name) attr cluster size))) (clean : Clean scan)
    (rest : List Slot) :
    ∃ visit : Visit, visit.slot = trim (shortEntry (shortNameFor name) attr cluster size) ∧
      visit.lfnName = (if needLfn name then name else []) ∧
      (visits p scan ((nameEntries name attr cluster size).map trim ++ rest)).1 =
        visit :: (visits (p + (nameEntries name attr cluster size).length) Scan.initial rest).1 := by
  have fileNameIs : fileName (trim (shortEntry (shortNameFor name) attr cluster size)) = shortNameFor name := by
    rw [fileName_trim, fileName_shortEntry _ _ _ _ (shortNameFor_length name)]
  unfold nameEntries
  dsimp only
  rw [List.map_append, List.map_map, List.map_singleton, List.append_assoc, List.singleton_append]
  generalize trim (shortEntry (shortNameFor name) attr cluster size) = e at inUse fileNameIs
  by_cases long : needLfn name = true
  · have positive : 0 < name.length := by
      apply List.length_pos_iff.mpr
      intro empty
      rw [empty] at long
      exact absurd long (by decide)
    rw [if_pos long, if_pos long]
    generalize partsIs : (name.length + 12) / 13 = parts
    have needed : (parts - 1) * 13 < name.length := by omega
    have buffer : scan.lfnBuf = nameFrom name (parts * 13) := by
      rw [clean.buf]
      funext i
      rw [nameFrom]
      split
      · rw [List.getD_eq_getElem?_getD, List.getElem?_eq_none (by omega), Option.getD_none]
        rfl
      · rfl
    obtain ⟨scan', same, whole, sum⟩ := visits_parts (p := p) stored (lfnChecksum (shortNameFor name))
      (fun i => decide (i = 0)) needed buffer (fun none => by omega) (e :: rest)
    have kept : scan'.checked e = scan' := by
      rw [Scan.checked, if_neg]
      rw [fileNameIs, sum]
      exact fun both => both.2 rfl
    refine ⟨visitOf (p + parts) scan' e, rfl, ?_, ?_⟩
    · rw [visitOf, kept, whole]
      exact lfnString_nameFrom stored
    · have shift : p + ((List.range parts).length + 1) = p + parts + 1 := by
        rw [List.length_range]
        omega
      rw [List.length_append, List.length_map, List.length_singleton, shift]
      refine (congrArg Prod.fst same).trans ?_
      rw [visits_inUse inUse, visits_clean (clean_cleared _)]
  · rw [if_neg long, if_neg long]
    refine ⟨visitOf p scan e, rfl, ?_, ?_⟩
    · rw [visitOf, checked_clean clean, clean.buf]
      exact (by decide +kernel : lfnString emptyBuf = [])
    · simp only [List.range_zero, List.map_nil, List.nil_append, List.length_singleton]
      rw [visits_inUse inUse, visits_clean (clean_cleared _)]

end Loop

end MeowMeowOS.LongNames
