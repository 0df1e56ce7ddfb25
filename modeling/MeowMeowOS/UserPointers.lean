import MeowMeowOS.VirtualMemory

/-! The checks of `syscall.c` on pointers that a user task passes in. Both
walk the current task's page tables and look at the present bit alone; the
page that the kernel maps for itself passes them as well. -/
namespace MeowMeowOS.UserPointers
open ByteMemory VirtualMemory

def kernelUserBoundary : Nat := 0xC0000000

def userAddrMin : Nat := 0x100000

/-- What a check tells the system call: whether to go on, and whether the
task has been sent `SIGSEGV`. -/
inductive Verdict where
  | accepted
  | refused
  | violation
  deriving DecidableEq

/-- The directory entry and the table entry that translate an address. -/
def pde (m : Mem) (pd a : Nat) : Nat := entry m pd (pdIndex a)

def pte (m : Mem) (pd a : Nat) : Nat := entry m (frameOf (pde m pd a)) (ptIndex a)

/-- `*(volatile char *)current`, through the page tables. -/
def userByte (m : Mem) (pd a : Nat) : UInt8 := m (frameOf (pte m pd a) + a % 4096)

def checkPage (m : Mem) (pd page : Nat) : Bool :=
  isPresent (pde m pd page) && isPresent (pte m pd page)

/-- The loop over the pages, `remaining` of them to go. -/
def checkPages (m : Mem) (pd : Nat) : Nat → Nat → Verdict
  | 0, _ => .accepted
  | remaining + 1, page =>
    if checkPage m pd page then checkPages m pd remaining (page + 4096) else .violation

def isValidUserPtr (m : Mem) (current : Option Nat) (ptr len : Nat) : Verdict :=
  if ptr = 0 then .refused
  else if ptr < userAddrMin ∨ kernelUserBoundary ≤ ptr then .refused
  else if len = 0 then .accepted
  else
    let endAddr := (ptr + len - 1) % 2 ^ 32
    if endAddr < ptr ∨ kernelUserBoundary ≤ endAddr then .refused
    else
      match current with
      | none => .refused
      | some pd =>
        checkPages m pd ((frameOf endAddr - frameOf ptr) / 4096 + 1) (frameOf ptr)

/-- The loop over the characters, `remaining` of them to go. -/
def checkChars (m : Mem) (pd : Nat) : Nat → Nat → Verdict
  | 0, _ => .refused
  | remaining + 1, a =>
    let current := a % 2 ^ 32
    if current < userAddrMin ∨ kernelUserBoundary ≤ current then .refused
    else if checkPage m pd current then
      if userByte m pd current = 0 then .accepted else checkChars m pd remaining (a + 1)
    else .violation

def isValidUserCstr (m : Mem) (current : Option Nat) (ptr maxLen : Nat) : Verdict :=
  if ptr = 0 then .refused
  else
    match current with
    | none => .refused
    | some pd => checkChars m pd maxLen ptr

/-- The task itself may touch the byte: both entries carry `PAGE_PRESENT` and
`PAGE_USER`. -/
def UserAccessible (m : Mem) (pd a : Nat) : Prop :=
  (isPresent (pde m pd a) = true ∧ isUser (pde m pd a) = true) ∧
    isPresent (pte m pd a) = true ∧ isUser (pte m pd a) = true

/-- Both entries on the way to the byte carry `PAGE_USER`, present or not. -/
def MarkedUser (m : Mem) (pd a : Nat) : Prop :=
  isUser (pde m pd a) = true ∧ isUser (pte m pd a) = true

/-! ## What the checks establish -/

section Walks
variable {m : Mem} {pd : Nat}

theorem pdIndex_page (same : a / 4096 = b / 4096) : pdIndex a = pdIndex b := by
  unfold pdIndex
  omega

theorem ptIndex_page (same : a / 4096 = b / 4096) : ptIndex a = ptIndex b := by
  unfold ptIndex
  omega

/-- Addresses of one page have the same entries. -/
theorem checkPage_page (same : a / 4096 = b / 4096) : checkPage m pd a = checkPage m pd b := by
  simp only [checkPage, pte, pde, pdIndex_page same, ptIndex_page same]

theorem userAccessible_iff :
    UserAccessible m pd a ↔ checkPage m pd a = true ∧ MarkedUser m pd a := by
  simp only [UserAccessible, MarkedUser, checkPage, Bool.and_eq_true]
  constructor
  · rintro ⟨⟨present, user⟩, presentTable, userTable⟩
    exact ⟨⟨present, presentTable⟩, user, userTable⟩
  · rintro ⟨⟨present, presentTable⟩, user, userTable⟩
    exact ⟨⟨present, user⟩, presentTable, userTable⟩

theorem checkPages_accepted (m : Mem) (pd n page : Nat) :
    checkPages m pd n page = .accepted ↔ ∀ k < n, checkPage m pd (page + k * 4096) = true := by
  induction n generalizing page with
  | zero => simp [checkPages]
  | succ n ih =>
    by_cases present : checkPage m pd page = true
    · rw [checkPages, if_pos present, ih]
      constructor
      · intro rest k small
        cases k with
        | zero => simpa using present
        | succ k =>
          have := rest k (by omega)
          rwa [show page + (k + 1) * 4096 = page + 4096 + k * 4096 by omega]
      · intro all k small
        have := all (k + 1) (by omega)
        rwa [show page + (k + 1) * 4096 = page + 4096 + k * 4096 by omega] at this
    · rw [checkPages, if_neg present]
      constructor
      · intro impossible
        cases impossible
      · intro all
        exact absurd (by simpa using all 0 (by omega)) present

/-- The range lies between the bounds of the check, without wrapping. -/
def InUserRange (ptr len : Nat) : Prop := userAddrMin ≤ ptr ∧ ptr + len ≤ kernelUserBoundary

theorem isValidUserPtr_accepted (some : 0 < len) (word : len < 2 ^ 32) :
    isValidUserPtr m (Option.some pd) ptr len = .accepted ↔
      InUserRange ptr len ∧ ∀ a, ptr ≤ a → a < ptr + len → checkPage m pd a = true := by
  unfold isValidUserPtr InUserRange userAddrMin kernelUserBoundary
  by_cases outside : ptr < 0x100000 ∨ 0xC0000000 ≤ ptr
  · have : ¬ (0x100000 ≤ ptr ∧ ptr + len ≤ 0xC0000000) := by omega
    simp [outside, this]
  · have nonnull : ptr ≠ 0 := by omega
    have nonempty : len ≠ 0 := by omega
    simp only [nonnull, outside, nonempty, ↓reduceIte]
    by_cases fits : ptr + len ≤ 0xC0000000
    · have noWrap : (ptr + len - 1) % 2 ^ 32 = ptr + len - 1 := Nat.mod_eq_of_lt (by omega)
      have inside : ¬ (ptr + len - 1 < ptr ∨ 0xC0000000 ≤ ptr + len - 1) := by omega
      have low : 0x100000 ≤ ptr := by omega
      simp only [noWrap, inside, ↓reduceIte, checkPages_accepted, low, fits, and_self, true_and]
      constructor
      · intro pages a above below
        rw [← pages (a / 4096 - ptr / 4096) (by unfold frameOf; omega)]
        exact checkPage_page (by unfold frameOf; omega)
      · intro all k small
        unfold frameOf at small ⊢
        -- one address of the range on the k-th page
        rw [← all (max ptr (ptr / 4096 * 4096 + k * 4096)) (by omega) (by omega)]
        exact checkPage_page (by omega)
    · have wraps : (ptr + len - 1) % 2 ^ 32 < ptr ∨ 0xC0000000 ≤ (ptr + len - 1) % 2 ^ 32 := by omega
      rw [if_pos wraps]
      simp [fits]

/-- The string of the check ends at its `n`-th byte: the bytes before it are
not zero, and this one is. -/
def EndsAt (m : Mem) (pd ptr n : Nat) : Prop :=
  userByte m pd (ptr + n) = 0 ∧ ∀ i < n, userByte m pd (ptr + i) ≠ 0

theorem endsAt_succ (zero : userByte m pd a ≠ 0) : EndsAt m pd a (e + 1) ↔ EndsAt m pd (a + 1) e := by
  unfold EndsAt
  have shift : ∀ i, a + (i + 1) = a + 1 + i := fun i => by omega
  constructor
  · rintro ⟨ends, before⟩
    refine ⟨by rwa [← shift], fun i small => ?_⟩
    rw [← shift]
    exact before (i + 1) (by omega)
  · rintro ⟨ends, before⟩
    refine ⟨by rwa [shift], fun i small => ?_⟩
    cases i with
    | zero => simpa using zero
    | succ i =>
      rw [shift]
      exact before i (by omega)

theorem checkChars_accepted (word : a < 2 ^ 32) :
    checkChars m pd n a = .accepted ↔ ∃ e < n, EndsAt m pd a e ∧
      ∀ i ≤ e, InUserRange (a + i) 1 ∧ checkPage m pd (a + i) = true := by
  induction n generalizing a with
  | zero => simp [checkChars]
  | succ n ih =>
    have current : a % 2 ^ 32 = a := Nat.mod_eq_of_lt word
    simp only [checkChars, current]
    by_cases outside : a < userAddrMin ∨ kernelUserBoundary ≤ a
    · rw [if_pos outside]
      constructor
      · intro impossible
        cases impossible
      · rintro ⟨e, -, -, checked⟩
        have := (checked 0 (Nat.zero_le e)).1
        unfold InUserRange at this
        omega
    · rw [if_neg outside]
      by_cases present : checkPage m pd a = true
      · rw [if_pos present]
        by_cases zero : userByte m pd a = 0
        · rw [if_pos zero]
          refine iff_of_true rfl ⟨0, by omega, ⟨zero, by omega⟩, fun i small => ?_⟩
          obtain rfl : i = 0 := by omega
          exact ⟨⟨by omega, by omega⟩, present⟩
        · rw [if_neg zero, ih (by unfold kernelUserBoundary at outside; omega)]
          constructor
          · rintro ⟨e, small, ends, checked⟩
            refine ⟨e + 1, by omega, (endsAt_succ zero).mpr ends, fun i le => ?_⟩
            cases i with
            | zero => exact ⟨⟨by omega, by omega⟩, present⟩
            | succ i =>
              rw [show a + (i + 1) = a + 1 + i by omega]
              exact checked i (by omega)
          · rintro ⟨e, small, ends, checked⟩
            cases e with
            | zero => exact absurd (by simpa using ends.1) zero
            | succ e =>
              refine ⟨e, by omega, (endsAt_succ zero).mp ends, fun i le => ?_⟩
              rw [show a + 1 + i = a + (i + 1) by omega]
              exact checked (i + 1) (by omega)
      · rw [if_neg present]
        constructor
        · intro impossible
          cases impossible
        · rintro ⟨e, -, -, checked⟩
          exact absurd (checked 0 (Nat.zero_le e)).2 present

theorem isValidUserCstr_accepted (word : ptr < 2 ^ 32) :
    isValidUserCstr m (some pd) ptr n = .accepted ↔ ∃ e < n, EndsAt m pd ptr e ∧
      ∀ i ≤ e, InUserRange (ptr + i) 1 ∧ checkPage m pd (ptr + i) = true := by
  unfold isValidUserCstr
  by_cases null : ptr = 0
  · rw [if_pos null]
    constructor
    · intro impossible
      cases impossible
    · rintro ⟨e, -, -, checked⟩
      have := (checked 0 (Nat.zero_le e)).1.1
      unfold userAddrMin at this
      omega
  · rw [if_neg null]
    exact checkChars_accepted word

theorem endsAt_unique (first : EndsAt m pd a e) (second : EndsAt m pd a f) : e = f := by
  rcases Nat.lt_trichotomy e f with less | same | less
  · exact absurd first.1 (second.2 e less)
  · exact same
  · exact absurd second.1 (first.2 f less)

end Walks

/-! ## When acceptance means that the task may touch the bytes -/

/-- What a system call may rely on after either check: every byte it is about
to touch is one that the task itself may touch. -/
def PtrCheckSound (m : Mem) (pd ptr len : Nat) : Prop :=
  isValidUserPtr m (some pd) ptr len = .accepted →
    ∀ a, ptr ≤ a → a < ptr + len → UserAccessible m pd a

def CstrCheckSound (m : Mem) (pd ptr maxLen : Nat) : Prop :=
  isValidUserCstr m (some pd) ptr maxLen = .accepted →
    ∃ e < maxLen, EndsAt m pd ptr e ∧ ∀ i ≤ e, UserAccessible m pd (ptr + i)

/-- The range check or an absent page stops the range, or no page of it is
kernel-only. -/
def PtrCovered (m : Mem) (pd ptr len : Nat) : Prop :=
  ¬ InUserRange ptr len ∨ (∃ a, ptr ≤ a ∧ a < ptr + len ∧ checkPage m pd a = false) ∨
    ∀ a, ptr ≤ a → a < ptr + len → MarkedUser m pd a

/-- The same for the string that ends within `maxLen` bytes, if there is one. -/
def CstrCovered (m : Mem) (pd ptr maxLen : Nat) : Prop :=
  ∀ e < maxLen, EndsAt m pd ptr e →
    (∃ i ≤ e, ¬ InUserRange (ptr + i) 1 ∨ checkPage m pd (ptr + i) = false) ∨
      ∀ i ≤ e, MarkedUser m pd (ptr + i)

theorem user_checks_sound_iff (m : Mem) (pd : Nat) (ptr len maxLen : Nat) (some : 0 < len)
    (wordLen : len < 2 ^ 32) (wordPtr : ptr < 2 ^ 32) :
    (PtrCheckSound m pd ptr len ↔ PtrCovered m pd ptr len) ∧
      (CstrCheckSound m pd ptr maxLen ↔ CstrCovered m pd ptr maxLen) := by
  refine ⟨?_, ?_⟩
  · unfold PtrCheckSound PtrCovered
    rw [isValidUserPtr_accepted some wordLen]
    constructor
    · intro sound
      by_cases inside : InUserRange ptr len
      · by_cases present : ∀ a, ptr ≤ a → a < ptr + len → checkPage m pd a = true
        · refine Or.inr (Or.inr fun a above below => ?_)
          exact (userAccessible_iff.mp (sound ⟨inside, present⟩ a above below)).2
        · push Not at present
          obtain ⟨a, above, below, absent⟩ := present
          exact Or.inr (Or.inl ⟨a, above, below, by simpa using absent⟩)
      · exact Or.inl inside
    · rintro condition ⟨inside, present⟩ a above below
      refine userAccessible_iff.mpr ⟨present a above below, ?_⟩
      rcases condition with outside | ⟨b, aboveB, belowB, absent⟩ | user
      · exact absurd inside outside
      · rw [present b aboveB belowB] at absent
        cases absent
      · exact user a above below
  · unfold CstrCheckSound CstrCovered
    rw [isValidUserCstr_accepted wordPtr]
    constructor
    · intro sound e small ends
      by_cases checked : ∀ i ≤ e, InUserRange (ptr + i) 1 ∧ checkPage m pd (ptr + i) = true
      · obtain ⟨f, -, endsF, accessible⟩ := sound ⟨e, small, ends, checked⟩
        obtain rfl := endsAt_unique ends endsF
        exact Or.inr fun i le => (userAccessible_iff.mp (accessible i le)).2
      · push Not at checked
        obtain ⟨i, le, failed⟩ := checked
        refine Or.inl ⟨i, le, ?_⟩
        by_cases inside : InUserRange (ptr + i) 1
        · exact Or.inr (by simpa using failed inside)
        · exact Or.inl inside
    · rintro condition ⟨e, small, ends, checked⟩
      refine ⟨e, small, ends, fun i le => userAccessible_iff.mpr ⟨(checked i le).2, ?_⟩⟩
      rcases condition e small ends with ⟨j, leJ, failed⟩ | user
      · rcases failed with outside | absent
        · exact absurd (checked j leJ).1 outside
        · rw [(checked j leJ).2] at absent
          cases absent
      · exact user i le

/-- A directory at 0x1000 whose table at 0x2000 maps the first page of the
kernel heap the way `vmm_initialize` does, for the kernel only. -/
def kernelPage : Mem :=
  setEntry (setEntry (fun _ => 0) 0x1000 1 (0x2000 ||| pagePresent ||| pageWrite)) 0x2000 0x200
    (identityEntry 0x400000 0x200)

theorem user_checks_sound_iff_kernel_page :
    (PtrCheckSound kernelPage 0x1000 0x600000 4 ↔ PtrCovered kernelPage 0x1000 0x600000 4) ∧
      (CstrCheckSound kernelPage 0x1000 0x600000 256 ↔ CstrCovered kernelPage 0x1000 0x600000 256) :=
  user_checks_sound_iff kernelPage 0x1000 0x600000 4 256 (by decide) (by decide) (by decide)

/-- Both checks accept an address of that page. -/
theorem kernel_page_accepted :
    isValidUserPtr kernelPage (some 0x1000) 0x600000 4 = .accepted ∧
      isValidUserCstr kernelPage (some 0x1000) 0x600000 256 = .accepted ∧
      ¬ PtrCheckSound kernelPage 0x1000 0x600000 4 ∧
      ¬ CstrCheckSound kernelPage 0x1000 0x600000 256 := by
  have directory : pde kernelPage 0x1000 0x600000 = 0x2003 := by decide
  have table : pte kernelPage 0x1000 0x600000 = 0x600003 := by decide
  have kernelOnly : ¬ UserAccessible kernelPage 0x1000 0x600000 := by
    rintro ⟨⟨-, user⟩, -⟩
    rw [directory] at user
    exact absurd user (by decide)
  have ptrAccepted : isValidUserPtr kernelPage (some 0x1000) 0x600000 4 = .accepted := by decide
  have cstrAccepted : isValidUserCstr kernelPage (some 0x1000) 0x600000 256 = .accepted := by decide
  refine ⟨ptrAccepted, cstrAccepted, fun sound => ?_, fun sound => ?_⟩
  · exact kernelOnly (sound ptrAccepted 0x600000 (by decide) (by decide))
  · obtain ⟨e, -, -, accessible⟩ := sound cstrAccepted
    exact kernelOnly (accessible 0 (Nat.zero_le e))

end MeowMeowOS.UserPointers
