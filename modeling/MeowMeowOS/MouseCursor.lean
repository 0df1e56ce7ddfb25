import MeowMeowOS.FramebufferConsole

/-! Text and the sprite of the mouse on one framebuffer. The pixels under the sprite
are put back as they were when it was drawn, so what is written there in between is
lost, and so is what scrolls. -/
namespace MeowMeowOS.MouseCursor
open ByteMemory FramebufferConsole

inductive Action where
  | draw (x y : Int)
  | put (c : UInt8)

def step (g : Screen) (s : Console) : Action → Console
  | .draw x y => kconsoleDrawMouseCursor g s x y
  | .put c => { s with graphics := kputChar g s.graphics c }

def run (g : Screen) (s : Console) (actions : List Action) : Console := actions.foldl (step g) s

/-- The calls of `kput_char` alone. -/
def typed (g : Screen) (s : Graphics) : List Action → Graphics
  | [] => s
  | .draw _ _ :: rest => typed g s rest
  | .put c :: rest => typed g (kputChar g s c) rest

/-- The positions are on the screen. -/
def OnScreen (g : Screen) : Action → Prop
  | .draw x y => (0 ≤ x ∧ x < g.width) ∧ 0 ≤ y ∧ y < g.height
  | .put _ => True

/-! ## What a character writes -/

def UnderSprite (mouse : Mouse) (px py : Nat) : Prop :=
  (mouse.savedX ≤ px ∧ (px : Int) < mouse.savedX + mouse.savedW) ∧
    mouse.savedY ≤ py ∧ (py : Int) < mouse.savedY + mouse.savedH

/-- No pixel of the rectangle lies under the sprite. -/
def Clear (mouse : Mouse) (x y w h : Nat) : Prop :=
  ∀ cx < w, ∀ cy < h, ¬ UnderSprite mouse ((x + cx) % 2 ^ 32) ((y + cy) % 2 ^ 32)

/-- Where the text cursor is behind the character. -/
def moved (g : Screen) (s : Graphics) (c : UInt8) : Nat × Nat :=
  if c = backspace then stepBack g s else advance g s c

/-- The cell that the character draws or erases. -/
def drawn (g : Screen) (s : Graphics) (c : UInt8) : Option (Nat × Nat) :=
  if c = backspace then some (stepBack g s) else if IsPrintable c then some (s.cursorX, s.cursorY) else none

def Scrolls (g : Screen) (s : Graphics) (c : UInt8) : Prop :=
  c ≠ backspace ∧ g.height < ((advance g s c).2 + 16) % 2 ^ 32

/-- The character stays away from the sprite. -/
structure Spares (g : Screen) (mouse : Mouse) (s : Graphics) (c : UInt8) : Prop where
  still : ¬ Scrolls g s c
  before : Clear mouse s.cursorX (s.cursorY + 14) 8 2
  cell : ∀ place ∈ drawn g s c, Clear mouse place.1 place.2 8 16
  after : Clear mouse (moved g s c).1 ((moved g s c).2 + 14) 8 2

/-- All characters do that are put while the sprite is on the screen. -/
def Spared (g : Screen) : Console → List Action → Prop
  | _, [] => True
  | s, .draw x y :: rest => Spared g (step g s (.draw x y)) rest
  | s, .put c :: rest =>
    (s.mouse.rendered = true → Spares g s.mouse s.graphics c) ∧ Spared g (step g s (.put c)) rest

section
variable {g : Screen} {mouse : Mouse} {p q : Graphics} {m m' actual : Mem} {x y px py i w h color : Nat}

/-! ## Bytes of a pixel -/

def InPixel (g : Screen) (x y i : Nat) : Prop := pixelOffset g x y ≤ i ∧ i < pixelOffset g x y + g.bpp / 8

/-- The bytes that a pixel writes, and no others. -/
theorem putPixel_inside (on : x < g.width ∧ y < g.height) (inside : InPixel g x y i) :
    fbPutPixel g m x y color i = UInt8.ofNat (color / 256 ^ (i - pixelOffset g x y)) := by
  unfold InPixel at inside
  unfold fbPutPixel
  rw [if_neg (by omega)]
  dsimp only
  generalize pixelOffset g x y = offset at inside ⊢
  rcases g.depth with depth | depth
  · rw [depth] at inside
    rw [depth, if_neg (by decide), if_pos rfl]
    obtain rfl | rfl | rfl : i = offset ∨ i = offset + 1 ∨ i = offset + 2 := by omega
    · simp [writeByte]
    · simp [writeByte]
    · simp [writeByte]
  · rw [depth] at inside
    rw [depth, if_pos rfl]
    obtain rfl | rfl | rfl | rfl : i = offset ∨ i = offset + 1 ∨ i = offset + 2 ∨ i = offset + 3 := by omega
    · simp [writeWord]
    · simp [writeWord]
    · simp [writeWord]
    · simp [writeWord]

theorem putPixel_outside (outside : ¬ ((x < g.width ∧ y < g.height) ∧ InPixel g x y i)) :
    fbPutPixel g m x y color i = m i := by
  unfold InPixel at outside
  unfold fbPutPixel
  by_cases off : g.width ≤ x ∨ g.height ≤ y
  · rw [if_pos off]
  · rw [if_neg off]
    dsimp only
    generalize pixelOffset g x y = offset at outside ⊢
    rcases g.depth with depth | depth
    · rw [depth] at outside
      rw [depth, if_neg (by decide), if_pos rfl]
      unfold writeByte
      rw [if_neg (by omega), if_neg (by omega), if_neg (by omega)]
    · rw [depth] at outside
      rw [depth, if_pos rfl]
      unfold writeWord
      simp only [show i ≠ offset by omega, show i ≠ offset + 1 by omega, show i ≠ offset + 2 by omega,
        show i ≠ offset + 3 by omega, if_false]

/-- A pixel that is read gives its bytes. -/
theorem getPixel_byte (on : x < g.width ∧ y < g.height) (inside : InPixel g x y i) :
    UInt8.ofNat (fbGetPixel g m x y / 256 ^ (i - pixelOffset g x y)) = m i := by
  unfold InPixel at inside
  unfold fbGetPixel
  rw [if_neg (by omega)]
  dsimp only
  generalize pixelOffset g x y = offset at inside ⊢
  have byte (n : Nat) (b : UInt8) (same : n % 256 = b.toNat) : UInt8.ofNat n = b := by
    apply UInt8.toNat_inj.mp
    simpa using same
  have bound (a : Nat) := (m a).toNat_lt
  have b0 := bound offset
  have b1 := bound (offset + 1)
  have b2 := bound (offset + 2)
  have b3 := bound (offset + 3)
  apply byte
  rcases g.depth with depth | depth
  · rw [depth] at inside
    rw [depth, if_neg (by decide), if_pos rfl]
    obtain rfl | rfl | rfl : i = offset ∨ i = offset + 1 ∨ i = offset + 2 := by omega
    · rw [Nat.sub_self, Nat.pow_zero]
      omega
    · rw [Nat.add_sub_cancel_left, Nat.pow_one]
      omega
    · rw [Nat.add_sub_cancel_left]
      omega
  · rw [depth] at inside
    rw [depth, if_pos rfl, readWord]
    obtain rfl | rfl | rfl | rfl : i = offset ∨ i = offset + 1 ∨ i = offset + 2 ∨ i = offset + 3 := by omega
    · rw [Nat.sub_self, Nat.pow_zero]
      omega
    · rw [Nat.add_sub_cancel_left, Nat.pow_one]
      omega
    · rw [Nat.add_sub_cancel_left]
      omega
    · rw [Nat.add_sub_cancel_left]
      omega

theorem getPixel_congr (same : ∀ i, InPixel g x y i → m' i = m i) : fbGetPixel g m' x y = fbGetPixel g m x y := by
  unfold InPixel at same
  unfold fbGetPixel
  by_cases off : g.width ≤ x ∨ g.height ≤ y
  · rw [if_pos off, if_pos off]
  · rw [if_neg off, if_neg off]
    dsimp only
    generalize pixelOffset g x y = offset at same ⊢
    rcases g.depth with depth | depth
    · rw [depth] at same ⊢
      have shallow : ¬ (24 : Nat) = 32 := by decide
      rw [if_neg shallow, if_neg shallow, same offset (by omega), same (offset + 1) (by omega),
        same (offset + 2) (by omega)]
    · rw [depth] at same ⊢
      rw [if_pos rfl, if_pos rfl, readWord, readWord, same offset (by omega), same (offset + 1) (by omega),
        same (offset + 2) (by omega), same (offset + 3) (by omega)]

/-- Inside the framebuffer nothing wraps. -/
theorem pixelOffset_eq (on : x < g.width ∧ y < g.height) :
    pixelOffset g x y = y * g.pitch + x * (g.bpp / 8) ∧ x * (g.bpp / 8) + g.bpp / 8 ≤ g.pitch := by
  obtain ⟨column, row⟩ := on
  have line : (x + 1) * (g.bpp / 8) ≤ g.pitch := Nat.le_trans (Nat.mul_le_mul_right _ column) g.rows
  rw [Nat.succ_mul] at line
  obtain ⟨pitch, height⟩ := g.words
  have last : (y + 1) * g.pitch ≤ (2 ^ 16 - 1) * (2 ^ 16 - 1) := Nat.mul_le_mul (by omega) (by omega)
  rw [Nat.succ_mul] at last
  have deep : 0 < g.bpp / 8 := by
    rcases g.depth with depth | depth
    · rw [depth]
      decide
    · rw [depth]
      decide
  exact ⟨Nat.mod_eq_of_lt (by omega), line⟩

theorem pixels_apart (on : x < g.width ∧ y < g.height) (on' : px < g.width ∧ py < g.height)
    (ne : x ≠ px ∨ y ≠ py)
    (inside : InPixel g x y i) : ¬ InPixel g px py i := by
  obtain ⟨offset, line⟩ := pixelOffset_eq on
  obtain ⟨offset', line'⟩ := pixelOffset_eq on'
  unfold InPixel at inside ⊢
  rw [offset] at inside
  rw [offset']
  rcases Nat.lt_trichotomy y py with less | same | more
  · have rows : (y + 1) * g.pitch ≤ py * g.pitch := Nat.mul_le_mul_right _ less
    rw [Nat.succ_mul] at rows
    omega
  · subst same
    rcases Nat.lt_trichotomy x px with less | same | more
    · have columns : (x + 1) * (g.bpp / 8) ≤ px * (g.bpp / 8) := Nat.mul_le_mul_right _ less
      rw [Nat.succ_mul] at columns
      omega
    · omega
    · have columns : (px + 1) * (g.bpp / 8) ≤ x * (g.bpp / 8) := Nat.mul_le_mul_right _ more
      rw [Nat.succ_mul] at columns
      omega
  · have rows : (py + 1) * g.pitch ≤ y * g.pitch := Nat.mul_le_mul_right _ more
    rw [Nat.succ_mul] at rows
    omega

theorem mem_cells {cell : Nat × Nat} : cell ∈ cells w h ↔ cell.1 < w ∧ cell.2 < h := by
  obtain ⟨dx, dy⟩ := cell
  simp only [cells, List.mem_flatMap, List.mem_map, List.mem_range, Prod.mk.injEq]
  constructor
  · rintro ⟨row, inside, column, within, rfl, rfl⟩
    exact ⟨within, inside⟩
  · rintro ⟨within, inside⟩
    exact ⟨dy, inside, dx, within, rfl, rfl⟩

/-! ## The sprite over the text -/

/-- The sprite lies at `x` and `y`, its backup has the pixels of `m`, and elsewhere the framebuffer is `m`. -/
structure Held (g : Screen) (mouse : Mouse) (x y : Nat) (actual m : Mem) : Prop where
  place : mouse.savedX = x ∧ mouse.savedY = y
  inside : x + mouse.savedW ≤ g.width ∧ y + mouse.savedH ≤ g.height
  saved : ∀ cell ∈ cells mouse.savedW mouse.savedH,
    mouse.bgBackup (cell.2 * cursorSpriteWidth + cell.1) = fbGetPixel g m (x + cell.1) (y + cell.2)
  others : ∀ i, actual i = m i ∨ ∃ cell ∈ cells mouse.savedW mouse.savedH, InPixel g (x + cell.1) (y + cell.2) i

/-- The framebuffer is `m`, but for the sprite if there is one. -/
def Masked (g : Screen) (mouse : Mouse) (actual m : Mem) : Prop :=
  (mouse.rendered = false ∧ actual = m) ∨ (mouse.rendered = true ∧ ∃ x y, Held g mouse x y actual m)

/-- A pixel elsewhere is written to both. -/
theorem held_put (held : Held g mouse x y actual m) (off : ¬ UnderSprite mouse px py) (color : Nat) :
    Held g mouse x y (fbPutPixel g actual px py color) (fbPutPixel g m px py color) := by
  refine ⟨held.place, held.inside, fun cell member => ?_, fun i => ?_⟩
  · obtain ⟨column, row⟩ := mem_cells.mp member
    rw [held.saved cell member]
    refine (getPixel_congr fun i inside => putPixel_outside ?_).symm
    rintro ⟨on, other⟩
    have within := held.inside
    refine pixels_apart ⟨by omega, by omega⟩ on ?_ inside other
    by_contra same
    apply off
    unfold UnderSprite
    rw [held.place.1, held.place.2]
    omega
  · by_cases touched : (px < g.width ∧ py < g.height) ∧ InPixel g px py i
    · rw [putPixel_inside touched.1 touched.2, putPixel_inside touched.1 touched.2]
      exact .inl rfl
    · rw [putPixel_outside touched, putPixel_outside touched]
      exact held.others i

theorem masked_fill (masked : Masked g mouse actual m) (clear : mouse.rendered = true → Clear mouse px py w h)
    (color : Nat → Nat → Nat) :
    Masked g mouse (fbFill g actual px py w h color) (fbFill g m px py w h color) := by
  rcases masked with ⟨none, same⟩ | ⟨rendered, x, y, held⟩
  · exact .inl ⟨none, by rw [same]⟩
  · refine .inr ⟨rendered, x, y, ?_⟩
    have every : ∀ cell ∈ cells w h, ¬ UnderSprite mouse ((px + cell.1) % 2 ^ 32) ((py + cell.2) % 2 ^ 32) := by
      intro cell member
      obtain ⟨column, row⟩ := mem_cells.mp member
      exact clear rendered cell.1 column cell.2 row
    unfold fbFill
    generalize cells w h = painted at every
    induction painted generalizing actual m with
    | nil => exact held
    | cons cell painted ih =>
      rw [List.foldl_cons, List.foldl_cons]
      exact ih (held_put held (every cell List.mem_cons_self) _) fun other member =>
        every other (List.mem_cons_of_mem cell member)

/-- The text of both is the same, and the one framebuffer is that of the other with the sprite. -/
structure Over (g : Screen) (mouse : Mouse) (p q : Graphics) : Prop where
  text : p = { q with fb := p.fb }
  masked : Masked g mouse p.fb q.fb

theorem over_fill (cover : Over g mouse p q) (clear : mouse.rendered = true → Clear mouse px py w h)
    (color : Nat → Nat → Nat) :
    Over g mouse { p with fb := fbFill g p.fb px py w h color } { q with fb := fbFill g q.fb px py w h color } := by
  obtain ⟨text, masked⟩ := cover
  exact ⟨by rw [text], masked_fill masked clear color⟩

theorem over_cursor (cover : Over g mouse p q)
    (clear : mouse.rendered = true → Clear mouse q.cursorX (q.cursorY + 14) 8 2) (visible : Bool) :
    Over g mouse (fbDrawCursor g p visible) (fbDrawCursor g q visible) := by
  have filled := over_fill cover clear fun _ _ => if visible then q.fgColor else q.bgColor
  obtain ⟨text, -⟩ := cover
  generalize p.fb = actual at text filled
  subst text
  exact filled

theorem over_glyph (cover : Over g mouse p q) (c : UInt8)
    (clear : mouse.rendered = true → IsPrintable c → Clear mouse q.cursorX q.cursorY 8 16) :
    Over g mouse (drawGlyph g p c) (drawGlyph g q c) := by
  unfold drawGlyph
  by_cases printable : IsPrintable c
  · have filled := over_fill cover (fun shown => clear shown printable) fun cx cy =>
      if glyphBit c cx cy then q.fgColor else q.bgColor
    obtain ⟨text, -⟩ := cover
    generalize p.fb = actual at text filled
    subst text
    rw [if_pos printable, if_pos printable]
    exact filled
  · rw [if_neg printable, if_neg printable]
    exact cover

theorem over_move (cover : Over g mouse p q) (place : Nat × Nat) : Over g mouse (moveTo p place) (moveTo q place) := by
  obtain ⟨text, masked⟩ := cover
  exact ⟨by rw [text]; rfl, masked⟩

theorem over_erase (cover : Over g mouse p q) (clear : mouse.rendered = true → Clear mouse q.cursorX q.cursorY 8 16) :
    Over g mouse (eraseCell g p) (eraseCell g q) := by
  have filled := over_fill cover clear fun _ _ => q.bgColor
  obtain ⟨text, -⟩ := cover
  generalize p.fb = actual at text filled
  subst text
  exact filled

theorem over_visible (cover : Over g mouse p q) :
    Over g mouse { p with cursorIsVisible := true, cursorBlinkCounter := 0 }
      { q with cursorIsVisible := true, cursorBlinkCounter := 0 } := by
  obtain ⟨text, masked⟩ := cover
  exact ⟨by rw [text], masked⟩

theorem over_places (cover : Over g mouse p q) (c : UInt8) :
    stepBack g p = stepBack g q ∧ advance g p c = advance g q c ∧ p.cursorIsVisible = q.cursorIsVisible := by
  rw [cover.text]
  exact ⟨rfl, rfl, rfl⟩

/-- Without a sprite there is one framebuffer. -/
theorem over_plain (cover : Over g mouse p q) (none : mouse.rendered = false) : p = q := by
  obtain ⟨text, ⟨-, same⟩ | ⟨shown, -⟩⟩ := cover
  · rw [text, same]
  · rw [none] at shown
    cases shown

theorem glyph_places (g : Screen) (s : Graphics) (c : UInt8) :
    (drawGlyph g s c).cursorX = s.cursorX ∧ (drawGlyph g s c).cursorY = s.cursorY ∧
      advance g (drawGlyph g s c) c = advance g s c := by
  unfold drawGlyph
  split
  · exact ⟨rfl, rfl, rfl⟩
  · exact ⟨rfl, rfl, rfl⟩

/-- A character changes the framebuffer with the sprite as it changes the one without. -/
theorem kputChar_over (cover : Over g mouse p q) (c : UInt8) (spares : mouse.rendered = true → Spares g mouse q c) :
    Over g mouse (kputChar g p c) (kputChar g q c) := by
  cases rendered : mouse.rendered with
  | false =>
    obtain rfl := over_plain cover rendered
    exact ⟨rfl, .inl ⟨rendered, rfl⟩⟩
  | true =>
    obtain ⟨still, before, cell, after⟩ := spares rendered
    have first := over_cursor cover (fun _ => before) false
    unfold kputChar
    dsimp only
    by_cases back : c = backspace
    · unfold drawn at cell
      unfold moved at after
      rw [if_pos back] at cell after
      rw [if_pos back, if_pos back]
      have second := over_cursor first (fun _ => before) false
      have erased := over_erase (over_move second (stepBack g q)) fun _ => cell _ rfl
      unfold kbackspace
      dsimp only
      rw [(over_places second c).1]
      have same : stepBack g (fbDrawCursor g (fbDrawCursor g q false) false) = stepBack g q := rfl
      rw [same]
      have visible : _ = q.cursorIsVisible := (over_places erased c).2.2
      rw [visible]
      exact over_cursor erased (fun _ => after) _
    · unfold drawn at cell
      unfold moved at after
      rw [if_neg back] at cell after
      rw [if_neg back, if_neg back]
      have glyph := over_glyph first c fun _ printable => by
        rw [if_pos printable] at cell
        exact cell _ rfl
      have place : advance g (drawGlyph g (fbDrawCursor g q false) c) c = advance g q c :=
        (glyph_places g (fbDrawCursor g q false) c).2.2
      rw [(over_places glyph c).2.1, place]
      have stays : ¬ g.height < ((advance g q c).2 + 16) % 2 ^ 32 := fun scrolls => still ⟨back, scrolls⟩
      have placed := over_move glyph (advance g q c)
      have landed (s : Graphics) : (if g.height < ((moveTo s (advance g q c)).cursorY + 16) % 2 ^ 32 then
          fbScroll g (moveTo s (advance g q c)) else moveTo s (advance g q c)) = moveTo s (advance g q c) :=
        if_neg stays
      rw [landed, landed]
      exact over_cursor (over_visible placed) (fun _ => after) true

/-! ## The mouse -/

theorem word_cast (n : Nat) (small : n < 2 ^ 32) : word (n : Int) = n := by
  unfold word
  omega

theorem screen_small (g : Screen) : g.width < 2 ^ 16 ∧ g.height < 2 ^ 16 := by
  obtain ⟨pitch, height⟩ := g.words
  have wide := g.rows
  have deep : g.width * 1 ≤ g.width * (g.bpp / 8) := by
    refine Nat.mul_le_mul_left _ ?_
    rcases g.depth with depth | depth
    · rw [depth]
      decide
    · rw [depth]
      decide
  omega

/-- Restoring puts back what is missing. -/
theorem restored_fb (held : Held g mouse x y actual m) :
    (cells mouse.savedW mouse.savedH).foldl (fun fb cell =>
      if word (mouse.savedX + cell.1) < g.width ∧ word (mouse.savedY + cell.2) < g.height then
        fbPutPixel g fb (word (mouse.savedX + cell.1)) (word (mouse.savedY + cell.2))
          (mouse.bgBackup (cell.2 * cursorSpriteWidth + cell.1))
      else fb) actual = m := by
  obtain ⟨⟨placeX, placeY⟩, within, saved, others⟩ := held
  have small := screen_small g
  have known : ∀ cell ∈ cells mouse.savedW mouse.savedH, (x + cell.1 < g.width ∧ y + cell.2 < g.height) ∧
      word (mouse.savedX + cell.1) = x + cell.1 ∧ word (mouse.savedY + cell.2) = y + cell.2 := by
    intro cell member
    obtain ⟨column, row⟩ := mem_cells.mp member
    rw [placeX, placeY, ← Int.natCast_add, ← Int.natCast_add]
    exact ⟨⟨by omega, by omega⟩, word_cast _ (by omega), word_cast _ (by omega)⟩
  generalize cells mouse.savedW mouse.savedH = missing at saved others known
  induction missing generalizing actual with
  | nil =>
    funext i
    rcases others i with same | ⟨cell, member, -⟩
    · exact same
    · cases member
  | cons cell missing ih =>
    obtain ⟨on, column, row⟩ := known cell List.mem_cons_self
    rw [List.foldl_cons, column, row, if_pos on, saved cell List.mem_cons_self]
    refine ih (fun other member => saved other (List.mem_cons_of_mem cell member)) (fun i => ?_)
      fun other member => known other (List.mem_cons_of_mem cell member)
    by_cases inside : InPixel g (x + cell.1) (y + cell.2) i
    · rw [putPixel_inside on inside, getPixel_byte on inside]
      exact .inl rfl
    · rw [putPixel_outside fun both => inside both.2]
      rcases others i with same | ⟨other, member, covered⟩
      · exact .inl same
      · rcases List.mem_cons.mp member with rfl | member
        · exact absurd covered inside
        · exact .inr ⟨other, member, covered⟩

theorem restore_masked (s : Console) (masked : Masked g s.mouse s.graphics.fb m) :
    (kconsoleRestoreMouseCursor g s).graphics = { s.graphics with fb := m } := by
  unfold kconsoleRestoreMouseCursor
  dsimp only
  rcases masked with ⟨none, rfl⟩ | ⟨rendered, x, y, held⟩
  · rw [if_pos (.inl none)]
  · have place := held.place
    have shown : ¬ (s.mouse.rendered = false ∨ s.mouse.savedX < 0 ∨ s.mouse.savedY < 0) := by
      rw [rendered]
      simp only [Bool.true_eq_false, false_or]
      omega
    rw [if_neg shown, restored_fb held]

/-- An array that is filled has, at each index, the last value stored there. -/
theorem backup_filled (index value : Nat × Nat → Nat) (filled : List (Nat × Nat)) (backup : Nat → Nat)
    (injective : ∀ a ∈ filled, ∀ b ∈ filled, index a = index b → a = b) {cell : Nat × Nat}
    (member : cell ∈ filled) :
    filled.foldl (fun backup cell => Function.update backup (index cell) (value cell)) backup (index cell) =
    value cell := by
  induction filled using List.reverseRecOn with
  | nil => cases member
  | append_singleton filled last ih =>
    rw [List.foldl_append, List.foldl_cons, List.foldl_nil]
    by_cases own : index cell = index last
    · rw [own, Function.update_self, injective cell member last (by simp) own]
    · rw [Function.update_of_ne own]
      rcases List.mem_append.mp member with inside | inside
      · exact ih (fun a first b second => injective a (List.mem_append_left _ first) b (List.mem_append_left _ second))
          inside
      · exact absurd (congrArg index (List.mem_singleton.mp inside)) own

/-- The sprite changes bytes of its own pixels alone. -/
theorem sprite_others (painted : List (Nat × Nat))
    (known : ∀ cell ∈ painted, word ((x : Int) + cell.1) = x + cell.1 ∧ word ((y : Int) + cell.2) = y + cell.2)
    (i : Nat) :
    painted.foldl (fun fb cell =>
      match spriteColor (spritePixel cell.1 cell.2) with
      | some color => fbPutPixel g fb (word ((x : Int) + cell.1)) (word ((y : Int) + cell.2)) color
      | none => fb) m i = m i ∨ ∃ cell ∈ painted, InPixel g (x + cell.1) (y + cell.2) i := by
  induction painted generalizing m with
  | nil => exact .inl rfl
  | cons cell painted ih =>
    obtain ⟨column, row⟩ := known cell List.mem_cons_self
    rw [List.foldl_cons, column, row]
    by_cases inside : InPixel g (x + cell.1) (y + cell.2) i
    · exact .inr ⟨cell, List.mem_cons_self, inside⟩
    · rcases ih fun other member => known other (List.mem_cons_of_mem cell member) with
        same | ⟨other, member, covered⟩
      · left
        rw [same]
        cases spriteColor (spritePixel cell.1 cell.2) with
        | none => rfl
        | some color => exact putPixel_outside fun both => inside both.2
      · exact .inr ⟨other, List.mem_cons_of_mem cell member, covered⟩

/-- What is drawn on the screen over `m` is held. -/
theorem held_drawn (g : Screen) (m : Mem) (backup : Nat → Nat) (narrow : w ≤ cursorSpriteWidth)
    (within : x + w ≤ g.width ∧ y + h ≤ g.height) :
    Held g
      ⟨(cells w h).foldl (fun backup cell =>
        Function.update backup (cell.2 * cursorSpriteWidth + cell.1)
          (fbGetPixel g m (word ((x : Int) + cell.1)) (word ((y : Int) + cell.2)))) backup, x, y, w, h, true⟩ x y
      ((cells w h).foldl (fun fb cell =>
        match spriteColor (spritePixel cell.1 cell.2) with
        | some color => fbPutPixel g fb (word ((x : Int) + cell.1)) (word ((y : Int) + cell.2)) color
        | none => fb) m) m := by
  have small := screen_small g
  have known : ∀ cell ∈ cells w h,
      word ((x : Int) + cell.1) = x + cell.1 ∧ word ((y : Int) + cell.2) = y + cell.2 := by
    intro cell member
    obtain ⟨column, row⟩ := mem_cells.mp member
    rw [← Int.natCast_add, ← Int.natCast_add]
    exact ⟨word_cast _ (by omega), word_cast _ (by omega)⟩
  refine ⟨⟨rfl, rfl⟩, within, fun cell member => ?_, sprite_others (cells w h) known⟩
  obtain ⟨column, row⟩ := known cell member
  have injective : ∀ a ∈ cells w h, ∀ b ∈ cells w h,
      a.2 * cursorSpriteWidth + a.1 = b.2 * cursorSpriteWidth + b.1 → a = b := by
    intro a first b second same
    have left := (mem_cells.mp first).1
    have right := (mem_cells.mp second).1
    unfold cursorSpriteWidth at same narrow
    exact Prod.ext (by omega) (by omega)
  rw [← column, ← row]
  exact backup_filled (fun cell => cell.2 * cursorSpriteWidth + cell.1)
    (fun cell => fbGetPixel g m (word ((x : Int) + cell.1)) (word ((y : Int) + cell.2))) _ backup injective member

/-- Drawing at a position on the screen covers the text and remembers what it covers. -/
theorem draw_masked (s : Console) {left top : Int} (place : OnScreen g (.draw left top))
    (masked : Masked g s.mouse s.graphics.fb m) :
    ∃ after, (kconsoleDrawMouseCursor g s left top).graphics = { s.graphics with fb := after } ∧
      Masked g (kconsoleDrawMouseCursor g s left top).mouse after m := by
  obtain ⟨⟨leftX, rightX⟩, leftY, rightY⟩ := place
  obtain ⟨x, rfl⟩ := Int.eq_ofNat_of_zero_le leftX
  obtain ⟨y, rfl⟩ := Int.eq_ofNat_of_zero_le leftY
  have small := screen_small g
  have restored : (if s.mouse.rendered = true then kconsoleRestoreMouseCursor g s else s).graphics =
      { s.graphics with fb := m } := by
    by_cases rendered : s.mouse.rendered = true
    · rw [if_pos rendered]
      exact restore_masked s masked
    · rw [if_neg rendered]
      rcases masked with ⟨-, rfl⟩ | ⟨shown, -⟩
      · rfl
      · exact absurd shown rendered
  have wide : (if (x : Int) + cursorSpriteWidth > g.width then word (g.width - x) else cursorSpriteWidth) ≤
      cursorSpriteWidth ∧
      x + (if (x : Int) + cursorSpriteWidth > g.width then word (g.width - x) else cursorSpriteWidth) ≤ g.width := by
    unfold word cursorSpriteWidth
    split
    · omega
    · omega
  have tall : y + (if (y : Int) + cursorSpriteHeight > g.height then word (g.height - y) else cursorSpriteHeight) ≤
      g.height := by
    unfold word cursorSpriteHeight
    split
    · omega
    · omega
  unfold kconsoleDrawMouseCursor
  rw [if_neg (by omega)]
  dsimp only
  rw [restored]
  exact ⟨_, rfl, .inr ⟨rfl, x, y, held_drawn g m _ wide.1 ⟨wide.2, tall⟩⟩⟩

/-! ## Runs -/

/-- Where a character goes does not depend on what the framebuffer shows. -/
theorem spares_text (cover : Over g mouse p q) {c : UInt8} (spares : Spares g mouse p c) : Spares g mouse q c := by
  obtain ⟨text, -⟩ := cover
  rw [text] at spares
  obtain ⟨still, before, cell, after⟩ := spares
  exact ⟨still, before, cell, after⟩

theorem step_over {s : Console} (cover : Over g s.mouse s.graphics q) {a : Action} (place : OnScreen g a)
    (spared : Spared g s [a]) : Over g (step g s a).mouse (step g s a).graphics (typed g q [a]) := by
  cases a with
  | draw left top =>
    obtain ⟨after, graphics, masked⟩ := draw_masked s place cover.masked
    change Over g _ (kconsoleDrawMouseCursor g s left top).graphics q
    rw [graphics]
    exact ⟨by rw [cover.text], masked⟩
  | put c => exact kputChar_over cover c fun shown => spares_text cover (spared.1 shown)

theorem run_over {s : Console} (cover : Over g s.mouse s.graphics q) {actions : List Action}
    (places : ∀ a ∈ actions, OnScreen g a) (spared : Spared g s actions) :
    Over g (run g s actions).mouse (run g s actions).graphics (typed g q actions) := by
  induction actions generalizing s q with
  | nil => exact cover
  | cons a actions ih =>
    have place := places a List.mem_cons_self
    have others : ∀ b ∈ actions, OnScreen g b := fun b member => places b (List.mem_cons_of_mem a member)
    cases a with
    | draw left top => exact ih (step_over cover place trivial) others spared
    | put c => exact ih (step_over cover place ⟨spared.1, trivial⟩) others spared.2

end

/-- Text stays away from the sprite, so taking the sprite away leaves the text alone. -/
theorem restored_typed (g : Screen) (s : Console) (actions : List Action) (hidden : s.mouse.rendered = false)
    (places : ∀ a ∈ actions, OnScreen g a) (spared : Spared g s actions) :
    (kconsoleRestoreMouseCursor g (run g s actions)).graphics.fb = (typed g s.graphics actions).fb := by
  have plain : Over g s.mouse s.graphics s.graphics := ⟨rfl, .inl ⟨hidden, rfl⟩⟩
  rw [restore_masked _ (run_over plain places spared).masked]

/-- Three lines of one character. -/
def smallScreen : Screen := ⟨8, 48, 32, 32, .inr rfl, by decide, by decide⟩

def smallConsole : Console := ⟨⟨fun _ => 0, 0, 0, 0xFFFFFF, 0, 0, true⟩, ⟨fun _ => 0, 0, 0, 0, 0, false⟩⟩

theorem small_places (c : UInt8) : ∀ a ∈ [Action.draw 0 30, .put c], OnScreen smallScreen a := by
  intro a member
  simp only [List.mem_cons, List.not_mem_nil, or_false] at member
  obtain rfl | rfl := member
  · unfold OnScreen smallScreen
    decide
  · trivial

theorem restored_typed_return :
    (kconsoleRestoreMouseCursor smallScreen
      (run smallScreen smallConsole [.draw 0 30, .put carriageReturn])).graphics.fb =
      (typed smallScreen smallConsole.graphics [.draw 0 30, .put carriageReturn]).fb := by
  refine restored_typed smallScreen smallConsole [.draw 0 30, .put carriageReturn] rfl (small_places carriageReturn)
    ⟨fun _ => ?_, trivial⟩
  -- the line of the text cursor ends above the sprite
  have above : Clear (step smallScreen smallConsole (.draw 0 30)).mouse 0 14 8 2 := by
    intro cx column cy row under
    have low : (30 : Int) ≤ ((14 + cy) % 2 ^ 32 : Nat) := under.2.1
    omega
  refine ⟨fun scrolls => absurd scrolls.2 (by decide +kernel), above, fun place drawn => ?_, above⟩
  cases drawn

theorem restored_typed_newline : ¬ ∀ (g : Screen) (s : Console) (actions : List Action), s.mouse.rendered = false →
    (∀ a ∈ actions, OnScreen g a) →
    (kconsoleRestoreMouseCursor g (run g s actions)).graphics.fb = (typed g s.graphics actions).fb := by
  intro always
  have byte := congrFun (always smallScreen smallConsole [.draw 0 30, .put newline] rfl (small_places newline)) 960
  revert byte
  decide +kernel

end MeowMeowOS.MouseCursor
