import MeowMeowOS.LongNames
import MeowMeowOS.WalkedEntries

/-! The 256-byte buffer in which the directory loops collect a long name: where
its characters are stored, and which names come through. The number of an entry
is not checked, and the last number that a name needs already reaches four bytes
behind the buffer. -/
namespace MeowMeowOS.LongNameBuffer
open ByteMemory Fat16Disk Fat16Names Fat16Directory Fat16Paths Fat16Geometry Fat16Scan LongNames
open WalkedEntries

/-! ## The stores of one entry -/

/-- The units that end the characters of an entry. -/
abbrev EndsName (unit : Nat) : Prop := unit = 0x0000 ∨ unit = 0xFFFF

/-- The indices at which `extract_lfn_chars` stores, from character `k` on. -/
def storesFrom (e : Slot) (idx : Nat) : Nat → Nat → List Nat
  | 0, _ => []
  | n + 1, k =>
    if EndsName (lfnChar e k) then [idx + k] else (idx + k) :: storesFrom e idx n (k + 1)

def lfnStores (e : Slot) : List Nat :=
  let order := (e 0).toNat % 32
  if order = 0 then [] else storesFrom e ((order - 1) * 13) 13 0

section Stores
variable {e : Slot} {buf : Mem} {i idx k m n : Nat}

theorem mem_storesFrom : i ∈ storesFrom e idx n k ↔
    ∃ j < n, i = idx + (k + j) ∧ ∀ m < j, ¬ EndsName (lfnChar e (k + m)) := by
  induction n generalizing k with
  | zero =>
    constructor
    · intro member
      cases member
    · rintro ⟨j, small, -⟩
      exact absurd small (Nat.not_lt_zero j)
  | succ n ih =>
    rw [storesFrom]
    split
    · rename_i ended
      rw [List.mem_singleton]
      constructor
      · rintro rfl
        exact ⟨0, Nat.succ_pos n, rfl, fun m small => absurd small (Nat.not_lt_zero m)⟩
      · rintro ⟨j, -, rfl, goesOn⟩
        cases j with
        | zero => rfl
        | succ j => exact absurd ended (goesOn 0 (Nat.succ_pos j))
    · rename_i inside
      rw [List.mem_cons, ih]
      constructor
      · rintro (rfl | ⟨j, small, rfl, goesOn⟩)
        · exact ⟨0, Nat.succ_pos n, rfl, fun m small => absurd small (Nat.not_lt_zero m)⟩
        · refine ⟨j + 1, Nat.succ_lt_succ small, by omega, fun m below => ?_⟩
          cases m with
          | zero => exact inside
          | succ m =>
            rw [show k + (m + 1) = k + 1 + m by omega]
            exact goesOn m (Nat.lt_of_succ_lt_succ below)
      · rintro ⟨j, small, rfl, goesOn⟩
        cases j with
        | zero => exact Or.inl rfl
        | succ j =>
          refine Or.inr ⟨j, Nat.lt_of_succ_lt_succ small, by omega, fun m below => ?_⟩
          rw [show k + 1 + m = k + (m + 1) by omega]
          exact goesOn (m + 1) (Nat.succ_lt_succ below)

/-- An entry stores one character after the other until a unit ends them. -/
theorem mem_lfnStores : i ∈ lfnStores e ↔ 0 < (e 0).toNat % 32 ∧
    ∃ j < 13, i = ((e 0).toNat % 32 - 1) * 13 + j ∧ ∀ m < j, ¬ EndsName (lfnChar e m) := by
  unfold lfnStores
  dsimp only
  split
  · rename_i none
    simp [none]
  · rename_i numbered
    rw [mem_storesFrom]
    simp only [Nat.zero_add]
    exact ⟨fun stored => ⟨Nat.pos_of_ne_zero numbered, stored⟩, fun stored => stored.2⟩

theorem extractFrom_outside (outside : i ∉ storesFrom e idx n k) : extractFrom e idx n k buf i = buf i := by
  have put : ∀ (buf : Mem) (a : Nat) (c : UInt8), i ≠ a → putChar buf a c i = buf i := by
    intro buf a c ne
    unfold putChar
    split
    · rw [writeByte, if_neg ne]
    · rfl
  induction n generalizing k buf with
  | zero => rfl
  | succ n ih =>
    rw [storesFrom] at outside
    rw [extractFrom]
    by_cases ended : EndsName (lfnChar e k)
    · rw [if_pos ended, List.mem_singleton] at outside
      rw [if_pos ended]
      exact put buf (idx + k) 0 outside
    · rw [if_neg ended, List.mem_cons, not_or] at outside
      rw [if_neg ended, ih outside.2]
      exact put buf (idx + k) _ outside.1

/-- The rest of the buffer is as it was. -/
theorem extractLfnChars_outside (outside : i ∉ lfnStores e) : extractLfnChars e buf i = buf i := by
  unfold lfnStores at outside
  unfold extractLfnChars
  dsimp only at outside ⊢
  split
  · rfl
  · rename_i numbered
    rw [if_neg numbered] at outside
    exact extractFrom_outside outside

theorem extractFrom_ended (ended : EndsName (lfnChar e m)) (zero : buf (idx + m) = 0) :
    extractFrom e idx n k buf (idx + m) = 0 := by
  induction n generalizing k buf with
  | zero => exact zero
  | succ n ih =>
    rw [extractFrom]
    by_cases here : EndsName (lfnChar e k)
    · rw [if_pos here, putChar]
      split
      · rw [writeByte]
        split
        · rfl
        · exact zero
      · exact zero
    · rw [if_neg here]
      apply ih
      have ne : idx + m ≠ idx + k := by
        intro same
        obtain rfl : m = k := by omega
        exact here ended
      unfold putChar
      split
      · rw [writeByte, if_neg ne]
        exact zero
      · exact zero

/-- Where a unit ends the characters, the buffer is left with a zero. -/
theorem extractLfnChars_ended (ended : EndsName (lfnChar e m))
    (zero : buf (((e 0).toNat % 32 - 1) * 13 + m) = 0) :
    extractLfnChars e buf (((e 0).toNat % 32 - 1) * 13 + m) = 0 := by
  unfold extractLfnChars
  split
  · exact zero
  · exact extractFrom_ended ended zero

/-- The entry's characters end inside the buffer: its number is at most 19, or
20 and one of the first nine units ends them. -/
def FitsBuffer (e : Slot) : Prop :=
  (e 0).toNat % 32 ≤ 19 ∨ ((e 0).toNat % 32 = 20 ∧ ∃ k < 9, EndsName (lfnChar e k))

theorem lfnStores_inside : (∀ i ∈ lfnStores e, i < 256) ↔ FitsBuffer e := by
  constructor
  · intro inside
    by_cases few : (e 0).toNat % 32 ≤ 19
    · exact Or.inl few
    · have start := inside _ (mem_lfnStores.mpr ⟨by omega, 0, by omega, rfl, nofun⟩)
      refine Or.inr ⟨by omega, ?_⟩
      by_contra never
      have behind := inside _ (mem_lfnStores.mpr ⟨by omega, 9, by omega, rfl,
        fun k early ended => never ⟨k, early, ended⟩⟩)
      omega
  · intro fits i stored
    obtain ⟨-, j, small, rfl, goesOn⟩ := mem_lfnStores.mp stored
    rcases fits with few | ⟨last, k, early, ended⟩
    · omega
    · have before : j ≤ k := by
        apply Nat.le_of_not_lt
        intro less
        exact goesOn k less ended
      omega

/-- The last byte of the buffer stays zero. -/
theorem extractLfnChars_last (fits : FitsBuffer e) (zero : buf 255 = 0) : extractLfnChars e buf 255 = 0 := by
  by_cases stored : 255 ∈ lfnStores e
  · obtain ⟨-, j, small, place, goesOn⟩ := mem_lfnStores.mp stored
    rcases fits with few | ⟨last, k, early, ended⟩
    · omega
    · have before : j ≤ k := by
        apply Nat.le_of_not_lt
        intro less
        exact goesOn k less ended
      obtain rfl : k = 8 := by omega
      have there : ((e 0).toNat % 32 - 1) * 13 + 8 = 255 := by rw [last]
      rw [← there] at zero ⊢
      exact extractLfnChars_ended ended zero
  · rw [extractLfnChars_outside stored]
    exact zero

end Stores

/-! ## A name through its entries -/

/-- The 32 bytes of each entry of a name, last part first; `flag` says which
carry the mark of the last part. -/
def nameParts (name : CString) (checksum : UInt8) (flag : Nat → Bool) (parts : Nat) : List Slot :=
  (List.range parts).map fun i => trim (populateLfnEntry name (parts - i) checksum (flag i))

/-- `n = ceil(length / 13)` -/
def partsOf (name : CString) : Nat := (name.length + 12) / 13

def decoded (entries : List Slot) : Mem := entries.foldl (fun buf e => extractLfnChars e buf) emptyBuf

/-- The buffer holds exactly the name and a zero behind it, and every store
was inside. -/
structure Survives (name : CString) (entries : List Slot) : Prop where
  chars : ∀ i < name.length, decoded entries i = name.getD i 0
  zero : decoded entries name.length = 0
  inside : ∀ e ∈ entries, ∀ i ∈ lfnStores e, i < 256

section Name
variable {name : CString} {checksum : UInt8}

theorem foldl_nameParts (stored : StorableName name) (flag : Nat → Bool)
    (needed : (parts - 1) * 13 < name.length) :
    (nameParts name checksum flag parts).foldl (fun buf e => extractLfnChars e buf) (nameFrom name (parts * 13)) =
      nameFrom name 0 := by
  have short := stored.short
  induction parts generalizing flag with
  | zero => rw [nameParts, List.range_zero, List.map_nil, List.foldl_nil, Nat.zero_mul]
  | succ parts ih =>
    have first := extractLfnChars_populate stored (Nat.succ_pos parts) (by omega) needed checksum (flag 0)
    have rest : (List.range parts).map ((fun i => trim (populateLfnEntry name (parts + 1 - i) checksum
        (flag i))) ∘ Nat.succ) = nameParts name checksum (fun i => flag (i + 1)) parts := by
      apply List.map_congr_left
      intro i _
      simp only [Function.comp_apply, Nat.succ_eq_add_one, Nat.add_sub_add_right]
    rw [nameParts, List.range_succ_eq_map, List.map_cons, List.map_map, rest, List.foldl_cons, Nat.sub_zero,
      first]
    exact ih _ (by omega)

theorem decoded_nameParts (stored : StorableName name) (flag : Nat → Bool) :
    decoded (nameParts name checksum flag (partsOf name)) = nameFrom name 0 := by
  have empty : emptyBuf = nameFrom name (partsOf name * 13) := by
    funext i
    rw [nameFrom]
    split
    · rw [List.getD_eq_getElem?_getD, List.getElem?_eq_none (by unfold partsOf at *; omega), Option.getD_none]
      rfl
    · rfl
  by_cases positive : 0 < name.length
  · rw [decoded, empty]
    exact foldl_nameParts stored flag (by unfold partsOf; omega)
  · have none : partsOf name = 0 := by
      unfold partsOf
      omega
    rw [none] at empty ⊢
    rw [decoded, nameParts, List.range_zero, List.map_nil, List.foldl_nil, empty, Nat.zero_mul]

theorem mem_nameParts (flag : Nat → Bool) (member : e ∈ nameParts name checksum flag (partsOf name))
    (short : name.length ≤ 255) :
    ∃ order, (e 0).toNat % 32 = order ∧ 0 < order ∧ (order - 1) * 13 < name.length ∧
      ∀ k < 13, lfnChar e k = nameUnit name ((order - 1) * 13 + k) := by
  obtain ⟨i, inside, rfl⟩ := List.mem_map.mp member
  have small := List.mem_range.mp inside
  unfold partsOf at small
  have number := (order_populate name checksum (flag i)
    (show 0 < partsOf name - i by unfold partsOf; omega) (by unfold partsOf; omega)).1
  refine ⟨partsOf name - i, number, by unfold partsOf; omega, by unfold partsOf; omega, fun k below => ?_⟩
  rw [lfnChar_trim _ below]
  exact lfnChar_populate below

/-- No store lies behind the zero that ends the name. -/
theorem nameParts_inside (flag : Nat → Bool) (short : name.length ≤ 255)
    (member : e ∈ nameParts name checksum flag (partsOf name)) (stored : i ∈ lfnStores e) : i < 256 := by
  obtain ⟨order, number, -, needed, chars⟩ := mem_nameParts flag member short
  obtain ⟨-, j, small, rfl, goesOn⟩ := mem_lfnStores.mp stored
  rw [number]
  by_contra behind
  have ended := goesOn (name.length - (order - 1) * 13) (by omega)
  rw [chars _ (by omega), Nat.add_sub_of_le (Nat.le_of_lt needed), nameUnit_end] at ended
  exact ended (Or.inl rfl)

/-- A byte 0xFF becomes the padding value: it ends the characters of its entry. -/
theorem decoded_padding (flag : Nat → Bool) (short : name.length ≤ 255) (found : name[j]? = some 0xFF) :
    decoded (nameParts name checksum flag (partsOf name)) j = 0 := by
  have unit : nameUnit name j = 0xFFFF := by
    rw [nameUnit, found]
    rfl
  have kept : ∀ entries : List Slot, (∀ e ∈ entries, e ∈ nameParts name checksum flag (partsOf name)) →
      ∀ buf : Mem, buf j = 0 → entries.foldl (fun buf e => extractLfnChars e buf) buf j = 0 := by
    intro entries parts
    induction entries with
    | nil => exact fun _ zero => zero
    | cons e rest ih =>
      intro buf zero
      rw [List.foldl_cons]
      apply ih (fun e member => parts e (List.mem_cons_of_mem _ member))
      by_cases stored : j ∈ lfnStores e
      · obtain ⟨order, number, -, -, chars⟩ := mem_nameParts flag (parts e List.mem_cons_self) short
        obtain ⟨-, k, small, place, -⟩ := mem_lfnStores.mp stored
        have ended : EndsName (lfnChar e k) := by
          rw [chars k small, ← number, ← place, unit]
          exact Or.inr rfl
        rw [place] at zero ⊢
        exact extractLfnChars_ended ended zero
      · rw [extractLfnChars_outside stored]
        exact zero
  exact kept _ (fun _ member => member) emptyBuf rfl

/-- A name comes through its entries unchanged exactly if it has no byte 0xFF. -/
theorem survives_iff (length : 1 ≤ name.length ∧ name.length ≤ 255) (nonzero : 0 ∉ name) (checksum : UInt8)
    (flag : Nat → Bool) : Survives name (nameParts name checksum flag (partsOf name)) ↔ 0xFF ∉ name := by
  constructor
  · intro survives member
    obtain ⟨j, inside, found⟩ := List.mem_iff_getElem.mp member
    have at_j : name[j]? = some 0xFF := by rw [List.getElem?_eq_getElem inside, found]
    have char := survives.chars j inside
    rw [decoded_padding flag length.2 at_j, List.getD_eq_getElem?_getD, at_j] at char
    cases char
  · intro absent
    have stored : StorableName name := by
      refine ⟨length.2, fun c member => ⟨?_, ?_⟩⟩
      · rintro rfl
        exact nonzero member
      · rintro rfl
        exact absent member
    have whole := @decoded_nameParts _ checksum stored flag
    refine ⟨fun i _ => ?_, ?_, fun e member i stored => nameParts_inside flag length.2 member stored⟩
    · rw [whole]
      exact if_pos (Nat.zero_le i)
    · rw [whole, nameFrom, if_pos (Nat.zero_le _), List.getD_eq_getElem?_getD,
        List.getElem?_eq_none (Nat.le_refl _), Option.getD_none]

/-- A name of thirty letters takes three entries. -/
theorem survives_iff_letters : partsOf (List.replicate 30 0x61) = 3 ∧ Survives (List.replicate 30 0x61)
    (nameParts (List.replicate 30 0x61) 0xA5 (· == 3) (partsOf (List.replicate 30 0x61))) :=
  ⟨by decide, (survives_iff (by decide) (by decide) 0xA5 (· == 3)).mpr (by decide)⟩

/-- The name of two bytes `a` and 0xFF comes back as `a`. -/
theorem padding_lost : ∃ name : CString, (1 ≤ name.length ∧ name.length ≤ 255) ∧ 0 ∉ name ∧
    ¬ Survives name (nameParts name 0 (fun _ => true) (partsOf name)) := by
  refine ⟨[0x61, 0xFF], by decide, by decide, fun survives => ?_⟩
  have char := survives.chars 1 (by decide)
  have read : decoded (nameParts [0x61, 0xFF] 0 (fun _ => true) (partsOf [0x61, 0xFF])) 1 = 0 := by
    decide +kernel
  rw [read] at char
  cases char

end Name

/-! ## The buffer in the directory loops -/

/-- What a loop does with the buffer: it stores a byte at an index, or it
compares the buffer or hands it on. -/
inductive BufferUse
  | stores (idx : Nat)
  | reads (buf : Mem)

/-- The uses in one walk over entries that returns at the first visit `stops`
holds of. -/
def slotUses (stops : Visit → Bool) : Nat → Scan → List Slot → List BufferUse
  | _, _, [] => []
  | p, scan, e :: rest =>
    if neverUsed e then []
    else if deleted e then slotUses stops (p + 1) scan.cleared rest
    else if isLongName e then
      (lfnStores e).map .stores ++ slotUses stops (p + 1) (scan.longName p e) rest
    else
      let checked := scan.checked e
      (if checked.lfnBuf 0 ≠ 0 then [.reads checked.lfnBuf] else []) ++
        if stops (visitOf p scan e) then [] else slotUses stops (p + 1) checked.cleared rest

/-- The four functions with such a loop. -/
inductive BufferCall
  | findEntryInCurrentDir (target : CString)
  | fat16List
  | fat16DeleteFile (filename : CString)
  | fat16DeleteDir (dirname : CString)

/-- A deletion stops at an entry of the wanted kind and sees only the first
cluster of the directory it enters. -/
def deletionScan (fuel : Nat) (v : Volume) (filename : CString) (directory : Bool) :
    (Visit → Bool) × List Slot :=
  match enterPath fuel v filename with
  | some (entered, baseName) =>
    if filename = [] then (fun _ => false, [])
    else (fun visit => visit.matches baseName && isDirectory visit.slot == directory,
      slotsOf entered entered.fs.currentDirCluster)
  | none => (fun _ => false, [])

/-- Where the loop of a call stops, and the entries it walks over. -/
def loopOf (fuel : Nat) (v : Volume) : BufferCall → (Visit → Bool) × List Slot
  | .findEntryInCurrentDir target => (fun visit => visit.matches target, directorySlots fuel v)
  | .fat16List => (fun _ => false, directorySlots fuel v)
  | .fat16DeleteFile filename => deletionScan fuel v filename false
  | .fat16DeleteDir dirname => deletionScan fuel v dirname true

def bufferUses (fuel : Nat) (v : Volume) (call : BufferCall) : List BufferUse :=
  slotUses (loopOf fuel v call).1 0 Scan.initial (loopOf fuel v call).2

/-- Every store is inside the buffer, and where it is read it holds a zero. -/
structure KeepsInside (uses : List BufferUse) : Prop where
  stores : ∀ idx, BufferUse.stores idx ∈ uses → idx < 256
  reads : ∀ buf, BufferUse.reads buf ∈ uses → ∃ i < 256, buf i = 0

/-- The loop comes to the entry: no never-used entry lies in front of it, and
no entry at which it returns. -/
def Comes (stops : Visit → Bool) (p : Nat) (scan : Scan) (slots : List Slot) (e : Slot) : Prop :=
  ∃ before after, slots = before ++ e :: after ∧ (∀ s ∈ before, neverUsed s = false) ∧
    ∀ visit ∈ (visits p scan before).1, stops visit = false

section Loops
variable {stops : Visit → Bool} {p : Nat} {scan : Scan} {slots rest : List Slot}

theorem slotUses_neverUsed (never : neverUsed e = true) : slotUses stops p scan (e :: rest) = [] := by
  simp [slotUses, never]

theorem slotUses_deleted (used : neverUsed e = false) (gone : deleted e = true) :
    slotUses stops p scan (e :: rest) = slotUses stops (p + 1) scan.cleared rest := by
  simp [slotUses, used, gone]

theorem slotUses_longName (long : LongEntry e) : slotUses stops p scan (e :: rest) =
    (lfnStores e).map .stores ++ slotUses stops (p + 1) (scan.longName p e) rest := by
  obtain ⟨used, kept, named⟩ := long
  simp [slotUses, used, kept, named]

theorem slotUses_inUse (inUse : InUse e) : slotUses stops p scan (e :: rest) =
    (if (scan.checked e).lfnBuf 0 ≠ 0 then [.reads (scan.checked e).lfnBuf] else []) ++
      if stops (visitOf p scan e) then [] else slotUses stops (p + 1) (scan.checked e).cleared rest := by
  obtain ⟨used, kept, short⟩ := inUse
  simp [slotUses, used, kept, short]

theorem comes_first (stops : Visit → Bool) (p : Nat) (scan : Scan) (e : Slot) (rest : List Slot) :
    Comes stops p scan (e :: rest) e :=
  ⟨[], rest, rfl, nofun, nofun⟩

theorem comes_deleted (used : neverUsed e = false) (gone : deleted e = true)
    (comes : Comes stops (p + 1) scan.cleared rest s) : Comes stops p scan (e :: rest) s := by
  obtain ⟨before, after, rfl, front, goesOn⟩ := comes
  refine ⟨e :: before, after, rfl, List.forall_mem_cons.mpr ⟨used, front⟩, ?_⟩
  rw [visits_deleted used gone]
  exact goesOn

theorem comes_longName (long : LongEntry e) (comes : Comes stops (p + 1) (scan.longName p e) rest s) :
    Comes stops p scan (e :: rest) s := by
  obtain ⟨before, after, rfl, front, goesOn⟩ := comes
  refine ⟨e :: before, after, rfl, List.forall_mem_cons.mpr ⟨long.1, front⟩, ?_⟩
  rw [visits_longName long.1 long.2.1 long.2.2]
  exact goesOn

theorem comes_inUse (inUse : InUse e) (passed : stops (visitOf p scan e) = false)
    (comes : Comes stops (p + 1) (scan.checked e).cleared rest s) : Comes stops p scan (e :: rest) s := by
  obtain ⟨before, after, rfl, front, goesOn⟩ := comes
  refine ⟨e :: before, after, rfl, List.forall_mem_cons.mpr ⟨inUse.1, front⟩, ?_⟩
  rw [visits_inUse inUse]
  exact List.forall_mem_cons.mpr ⟨passed, goesOn⟩

/-- Whatever the loop comes to, it decodes if it is part of a long name. -/
theorem slotUses_stores {i : Nat} (comes : Comes stops p scan slots e) (long : LongEntry e)
    (stored : i ∈ lfnStores e) :
    BufferUse.stores i ∈ slotUses stops p scan slots := by
  obtain ⟨before, after, rfl, front, goesOn⟩ := comes
  induction before generalizing p scan with
  | nil =>
    rw [List.nil_append, slotUses_longName long]
    exact List.mem_append_left _ (List.mem_map_of_mem stored)
  | cons first before ih =>
    obtain ⟨used, front'⟩ := List.forall_mem_cons.mp front
    rw [List.cons_append]
    by_cases kept : deleted first = false
    · by_cases short : isLongName first = false
      · rw [visits_inUse ⟨used, kept, short⟩] at goesOn
        obtain ⟨passed, later⟩ := List.forall_mem_cons.mp goesOn
        rw [slotUses_inUse ⟨used, kept, short⟩, passed]
        exact List.mem_append_right _ (ih front' later)
      · have named : isLongName first = true := by simpa using short
        rw [visits_longName used kept named] at goesOn
        rw [slotUses_longName ⟨used, kept, named⟩]
        exact List.mem_append_right _ (ih front' goesOn)
    · have gone : deleted first = true := by simpa using kept
      rw [visits_deleted used gone] at goesOn
      rw [slotUses_deleted used gone]
      exact ih front' goesOn

theorem keepsInside_append (first : KeepsInside a) (second : KeepsInside b) : KeepsInside (a ++ b) where
  stores := fun idx member => (List.mem_append.mp member).elim (first.stores idx) (second.stores idx)
  reads := fun buf member => (List.mem_append.mp member).elim (first.reads buf) (second.reads buf)

theorem keepsInside_nil : KeepsInside [] := ⟨nofun, nofun⟩

theorem keepsInside_stores {e : Slot} (fits : FitsBuffer e) : KeepsInside ((lfnStores e).map .stores) where
  stores := by
    intro idx member
    obtain ⟨i, stored, same⟩ := List.mem_map.mp member
    cases same
    exact lfnStores_inside.mpr fits idx stored
  reads := by
    intro buf member
    obtain ⟨i, -, same⟩ := List.mem_map.mp member
    cases same

theorem keepsInside_read (zero : buf 255 = 0) : KeepsInside (if buf 0 ≠ 0 then [.reads buf] else []) := by
  split
  · refine ⟨fun idx member => ?_, fun read member => ?_⟩
    · cases List.mem_singleton.mp member
    · cases List.mem_singleton.mp member
      exact ⟨255, by decide, zero⟩
  · exact keepsInside_nil

/-- The last byte of the buffer is zero throughout. -/
theorem slotUses_inside (fits : ∀ e, Comes stops p scan slots e → LongEntry e → FitsBuffer e)
    (zero : scan.lfnBuf 255 = 0) : KeepsInside (slotUses stops p scan slots) := by
  induction slots generalizing p scan with
  | nil => exact keepsInside_nil
  | cons e rest ih =>
    by_cases used : neverUsed e = false
    · by_cases kept : deleted e = false
      · by_cases short : isLongName e = false
        · have inUse : InUse e := ⟨used, kept, short⟩
          have checked : (scan.checked e).lfnBuf 255 = 0 := by
            unfold Scan.checked
            split
            · rfl
            · exact zero
          rw [slotUses_inUse inUse]
          apply keepsInside_append (keepsInside_read checked)
          split
          · exact keepsInside_nil
          · rename_i goesOn
            exact ih (fun s comes => fits s (comes_inUse inUse (by simpa using goesOn) comes)) rfl
        · have long : LongEntry e := ⟨used, kept, by simpa using short⟩
          have here := fits e (comes_first stops p scan e rest) long
          rw [slotUses_longName long]
          apply keepsInside_append (keepsInside_stores here)
          exact ih (fun s comes => fits s (comes_longName long comes)) (extractLfnChars_last here zero)
      · have gone : deleted e = true := by simpa using kept
        rw [slotUses_deleted used gone]
        exact ih (fun s comes => fits s (comes_deleted used gone comes)) rfl
    · rw [slotUses_neverUsed (by simpa using used)]
      exact keepsInside_nil

theorem slotUses_iff : KeepsInside (slotUses stops p Scan.initial slots) ↔
    ∀ e, Comes stops p Scan.initial slots e → LongEntry e → FitsBuffer e := by
  constructor
  · intro keeps e comes long
    apply lfnStores_inside.mp
    intro i stored
    exact keeps.stores i (slotUses_stores comes long stored)
  · intro fits
    exact slotUses_inside fits rfl

/-- What a listing hands on is a long name read from the buffer. -/
theorem slotUses_visits (member : visit ∈ (visits p scan slots).1) (named : visit.lfnName ≠ []) :
    ∃ buf, BufferUse.reads buf ∈ slotUses (fun _ => false) p scan slots ∧ lfnString buf = visit.lfnName := by
  induction slots generalizing p scan with
  | nil => simp [visits] at member
  | cons e rest ih =>
    by_cases used : neverUsed e = false
    · by_cases kept : deleted e = false
      · by_cases short : isLongName e = false
        · have inUse : InUse e := ⟨used, kept, short⟩
          rw [visits_inUse inUse] at member
          rw [slotUses_inUse inUse]
          rcases List.mem_cons.mp member with rfl | later
          · refine ⟨(scan.checked e).lfnBuf, List.mem_append_left _ ?_, rfl⟩
            rw [if_pos]
            · exact List.mem_singleton_self _
            · intro zero
              apply named
              rw [visitOf, lfnString, List.range_succ_eq_map, List.map_cons, List.takeWhile_cons, zero]
              rfl
          · obtain ⟨buf, read, text⟩ := ih later
            exact ⟨buf, List.mem_append_right _ read, text⟩
        · have long : LongEntry e := ⟨used, kept, by simpa using short⟩
          rw [visits_longName used kept long.2.2] at member
          rw [slotUses_longName long]
          obtain ⟨buf, read, text⟩ := ih member
          exact ⟨buf, List.mem_append_right _ read, text⟩
      · have gone : deleted e = true := by simpa using kept
        rw [visits_deleted used gone] at member
        rw [slotUses_deleted used gone]
        exact ih member
    · rw [visits_neverUsed (by simpa using used)] at member
      cases member

end Loops

/-- A call keeps to the buffer exactly if every part of a long name that its
loop comes to ends inside it. -/
theorem buffer_kept_iff (fuel : Nat) (v : Volume) (call : BufferCall) :
    KeepsInside (bufferUses fuel v call) ↔
      ∀ e, Comes (loopOf fuel v call).1 0 Scan.initial (loopOf fuel v call).2 e → LongEntry e → FitsBuffer e :=
  slotUses_iff

/-- A root whose first entry is part 31 of a long name. -/
def strayPart : Volume where
  fs :=
    { isMounted := true
      rootDirLba := 3
      rootDirSectors := 1
      dataRegionLba := 4
      sectorsPerFat := 1
      sectorsPerCluster := 1
      reservedSectors := 1
      currentDirCluster := 0
      currentPath := rootPath }
  disk :=
    { total := 16,
      sectors := fun n o => if n = 3 then (if o = 0 then 0x5F else if o = 11 then 0x0F else 0x61) else 0 }

/-- Its characters are stored at 390 and behind. -/
theorem stray_part_outside : ¬ KeepsInside (bufferUses 1 strayPart .fat16List) := by
  intro keeps
  have first : Comes (fun _ => false) 0 Scan.initial (slotsOf strayPart 0) (dirSlot strayPart.disk 3 0) :=
    ⟨[], (slotsOf strayPart 0).tail, rfl, nofun, nofun⟩
  have long : LongEntry (dirSlot strayPart.disk 3 0) := ⟨by decide, by decide, by decide⟩
  have stored : 390 ∈ lfnStores (dirSlot strayPart.disk 3 0) := by decide +kernel
  exact absurd (keeps.stores 390 (slotUses_stores first long stored)) (by decide)

end MeowMeowOS.LongNameBuffer
