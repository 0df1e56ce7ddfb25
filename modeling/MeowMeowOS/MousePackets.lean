import MeowMeowOS.MouseCursor

/-! The packets of the mouse, which come byte by byte and between other interrupts, and the
pointer that they move over the text on the screen. -/
namespace MeowMeowOS.MousePackets
open FramebufferConsole MouseCursor

/-! ## The driver -/

/-- The variables of `mouse.c`. -/
structure Driver where
  mouseCycle : Nat
  packet0 : UInt8
  packet1 : UInt8
  packet2 : UInt8
  mouseX : Int
  mouseY : Int
  mouseBtnState : UInt8

/-- The size of the screen, or the one that is assumed without a framebuffer. -/
def maxSize (size default : Nat) : Nat := if size = 0 then default else size

/-- A movement of nine bits. -/
def delta (flags sign value : UInt8) : Int :=
  if flags &&& sign ≠ 0 then value.toNat - 256 else value.toNat

/-- A position on a screen of fewer than 2^31 pixels. -/
def clamp (position : Int) (max : Nat) : Int :=
  let position := if position < 0 then 0 else position
  if (max : Int) ≤ position then max - 1 else position

/-- `mouse_state_t` -/
structure MouseState where
  x : Int
  y : Int
  buttons : UInt8

def mouseGetState (m : Driver) : MouseState := ⟨m.mouseX, m.mouseY, m.mouseBtnState⟩

section
variable (g : Screen)

/-- The driver, and whether it draws the cursor anew. -/
def mouseIsr (m : Driver) (status data : UInt8) : Driver × Bool :=
  if status &&& 0x20 = 0 then (m, false)
  else
    match m.mouseCycle with
    | 0 => if data &&& 0x08 = 0 then (m, false) else ({ m with packet0 := data, mouseCycle := 1 }, false)
    | 1 => ({ m with packet1 := data, mouseCycle := 2 }, false)
    | 2 =>
      let m := { m with packet2 := data, mouseCycle := 0 }
      if m.packet0 &&& 0xC0 ≠ 0 then (m, false)
      else
        ({ m with
          mouseX := clamp (m.mouseX + delta m.packet0 0x10 m.packet1) (maxSize g.width 1024)
          mouseY := clamp (m.mouseY - delta m.packet0 0x20 m.packet2) (maxSize g.height 768)
          mouseBtnState := m.packet0 &&& 0x07 }, true)
    | _ => (m, false)

/-- What `mouse_initialize` leaves in the variables. -/
def mouseInitialize (m : Driver) : Driver :=
  { m with
    mouseCycle := 0
    mouseX := if 0 < g.width then (g.width / 2 : Nat) else 512
    mouseY := if 0 < g.height then (g.height / 2 : Nat) else 384
    mouseBtnState := 0 }

/-- An interrupt, with what the two ports show, or a character that is printed. -/
inductive Event
  | interrupt (status data : UInt8)
  | put (c : UInt8)

structure System where
  driver : Driver
  console : Console

def handle (s : System) : Event → System
  | .interrupt status data =>
    let isr := mouseIsr g s.driver status data
    ⟨isr.1, if isr.2 then kconsoleDrawMouseCursor g s.console isr.1.mouseX isr.1.mouseY else s.console⟩
  | .put c => { s with console := { s.console with graphics := kputChar g s.console.graphics c } }

/-- Before interrupts are enabled, the driver draws the cursor once. -/
def start (s : System) : System where
  driver := mouseInitialize g s.driver
  console := kconsoleDrawMouseCursor g s.console (mouseInitialize g s.driver).mouseX (mouseInitialize g s.driver).mouseY

end

/-! ## What the bytes say -/

structure Packet where
  flags : UInt8
  dx : UInt8
  dy : UInt8

/-- The packets in a stream; bytes that can not begin one are passed by. -/
def packets : List UInt8 → List Packet
  | [] => []
  | flags :: rest =>
    if flags &&& 0x08 = 0 then packets rest
    else
      match rest with
      | dx :: dy :: rest => ⟨flags, dx, dy⟩ :: packets rest
      | _ => []

/-- The bytes that come from the mouse. -/
def bytes (events : List Event) : List UInt8 :=
  events.filterMap fun
    | .interrupt status data => if status &&& 0x20 = 0 then none else some data
    | .put _ => none

/-- A packet that does not overflow moves the pointer, up to the edges of the screen. -/
def Packet.move (g : Screen) (place : MouseState) (p : Packet) : MouseState :=
  if p.flags &&& 0xC0 ≠ 0 then place
  else
    { x := clamp (place.x + delta p.flags 0x10 p.dx) (maxSize g.width 1024)
      y := clamp (place.y - delta p.flags 0x20 p.dy) (maxSize g.height 768)
      buttons := p.flags &&& 0x07 }

def centre (g : Screen) : MouseState where
  x := if 0 < g.width then (g.width / 2 : Nat) else 512
  y := if 0 < g.height then (g.height / 2 : Nat) else 384
  buttons := 0

def Inside (g : Screen) (place : MouseState) : Prop :=
  (0 ≤ place.x ∧ place.x < maxSize g.width 1024) ∧ 0 ≤ place.y ∧ place.y < maxSize g.height 768

/-- The characters that are printed. -/
def text (events : List Event) : List UInt8 :=
  events.filterMap fun
    | .interrupt _ _ => none
    | .put c => some c

/-- The calls of the console that the events lead to. -/
def actions (g : Screen) : Driver → List Event → List Action
  | _, [] => []
  | m, .interrupt status data :: rest =>
    if (mouseIsr g m status data).2 then
      .draw (mouseIsr g m status data).1.mouseX (mouseIsr g m status data).1.mouseY ::
        actions g (mouseIsr g m status data).1 rest
    else actions g (mouseIsr g m status data).1 rest
  | m, .put c :: rest => .put c :: actions g m rest

/-- The calls since the cursor was drawn first. -/
def allActions (g : Screen) (m : Driver) (events : List Event) : List Action :=
  .draw (mouseInitialize g m).mouseX (mouseInitialize g m).mouseY ::
    actions g (mouseInitialize g m) events

/-! ## One byte -/

section
variable {g : Screen} {m : Driver} {f status data : UInt8} {rest : List UInt8} {place : MouseState}
  {events : List Event}

theorem packets_skip (off : f &&& 0x08 = 0) : packets (f :: rest) = packets rest := by
  rw [packets.eq_def]
  exact if_pos off

theorem packets_whole (on : f &&& 0x08 ≠ 0) (dx dy : UInt8) :
    packets (f :: dx :: dy :: rest) = ⟨f, dx, dy⟩ :: packets rest := by
  rw [packets.eq_def]
  exact if_neg on

/-- The bytes of the packet that is not complete. -/
def pending (m : Driver) : List UInt8 :=
  match m.mouseCycle with
  | 0 => []
  | 1 => [m.packet0]
  | _ => [m.packet0, m.packet1]

/-- A packet that has begun has the bit that is always set. -/
structure Begun (m : Driver) : Prop where
  cycle : m.mouseCycle ≤ 2
  first : m.mouseCycle ≠ 0 → m.packet0 &&& 0x08 ≠ 0

theorem clamp_inside (position : Int) {max : Nat} (positive : 0 < max) :
    0 ≤ clamp position max ∧ clamp position max < max := by
  unfold clamp
  dsimp only
  split <;> split <;> omega

theorem maxSize_pos (size : Nat) {default : Nat} (positive : 0 < default) : 0 < maxSize size default := by
  unfold maxSize
  split <;> omega

theorem move_inside (inside : Inside g place) (p : Packet) : Inside g (p.move g place) := by
  unfold Packet.move
  split
  · exact inside
  · exact ⟨clamp_inside _ (maxSize_pos _ (by decide)), clamp_inside _ (maxSize_pos _ (by decide))⟩

theorem centre_inside (g : Screen) : Inside g (centre g) := by
  unfold Inside centre maxSize
  dsimp only
  constructor
  · split <;> split <;> omega
  · split <;> split <;> omega

theorem onScreen_inside (sized : 0 < g.width ∧ 0 < g.height) (inside : Inside g (mouseGetState m)) :
    OnScreen g (.draw m.mouseX m.mouseY) := by
  have wide : maxSize g.width 1024 = g.width := if_neg (Nat.ne_of_gt sized.1)
  have deep : maxSize g.height 768 = g.height := if_neg (Nat.ne_of_gt sized.2)
  unfold Inside at inside
  rw [wide, deep] at inside
  exact inside

/-- A byte of the mouse moves the pointer as the packet does that it completes. -/
theorem isr_byte (begun : Begun m) (aux : status &&& 0x20 ≠ 0) (rest : List UInt8) :
    Begun (mouseIsr g m status data).1 ∧
      (packets (pending m ++ data :: rest)).foldl (Packet.move g) (mouseGetState m) =
        (packets (pending (mouseIsr g m status data).1 ++ rest)).foldl (Packet.move g)
          (mouseGetState (mouseIsr g m status data).1) ∧
      (Inside g (mouseGetState m) → Inside g (mouseGetState (mouseIsr g m status data).1)) := by
  obtain ⟨cycle, packet0, packet1, packet2, x, y, buttons⟩ := m
  obtain ⟨small, first⟩ := begun
  dsimp only at small first
  unfold mouseIsr
  rw [if_neg aux]
  rcases (by omega : cycle = 0 ∨ cycle = 1 ∨ cycle = 2) with rfl | rfl | rfl
  · dsimp only
    by_cases off : data &&& 0x08 = 0
    · rw [if_pos off]
      refine ⟨⟨Nat.zero_le 2, fun cycle => absurd rfl cycle⟩, ?_, id⟩
      change (packets (data :: rest)).foldl _ _ = _
      rw [packets_skip off]
      rfl
    · rw [if_neg off]
      exact ⟨⟨Nat.le_succ 1, fun _ => off⟩, rfl, id⟩
  · exact ⟨⟨Nat.le_refl 2, fun _ => first (by decide)⟩, rfl, id⟩
  · have split : packets (pending ⟨2, packet0, packet1, packet2, x, y, buttons⟩ ++ data :: rest) =
        ⟨packet0, packet1, data⟩ :: packets rest := packets_whole (first (by decide)) packet1 data
    dsimp only
    rw [split, List.foldl_cons]
    by_cases overflow : packet0 &&& 0xC0 ≠ 0
    · rw [if_pos overflow]
      refine ⟨⟨Nat.zero_le 2, fun cycle => absurd rfl cycle⟩, ?_, id⟩
      rw [Packet.move, if_pos overflow]
      rfl
    · rw [if_neg overflow]
      refine ⟨⟨Nat.zero_le 2, fun cycle => absurd rfl cycle⟩, ?_, fun inside => ?_⟩
      · rw [Packet.move, if_neg overflow]
        rfl
      · have moved := move_inside inside ⟨packet0, packet1, data⟩
        rw [Packet.move, if_neg overflow] at moved
        exact moved

/-- The other interrupts are not the driver's. -/
theorem isr_other (other : status &&& 0x20 = 0) (data : UInt8) : mouseIsr g m status data = (m, false) := if_pos other

theorem isr_keeps (begun : Begun m) (inside : Inside g (mouseGetState m)) (status data : UInt8) :
    Begun (mouseIsr g m status data).1 ∧ Inside g (mouseGetState (mouseIsr g m status data).1) := by
  by_cases other : status &&& 0x20 = 0
  · rw [isr_other other]
    exact ⟨begun, inside⟩
  · obtain ⟨begins, -, stays⟩ := isr_byte begun other []
    exact ⟨begins, stays inside⟩

/-- A packet that is not complete moves nothing. -/
theorem packets_pending (begun : Begun m) : packets (pending m) = [] := by
  obtain ⟨cycle, packet0, packet1, packet2, x, y, buttons⟩ := m
  obtain ⟨small, first⟩ := begun
  dsimp only at small first
  rcases (by omega : cycle = 0 ∨ cycle = 1 ∨ cycle = 2) with rfl | rfl | rfl
  · rfl
  · change packets [packet0] = []
    rw [packets.eq_def]
    exact if_neg (first (by decide))
  · change packets [packet0, packet1] = []
    rw [packets.eq_def]
    exact if_neg (first (by decide))

/-! ## All events -/

theorem bytes_other (other : status &&& 0x20 = 0) (data : UInt8) :
    bytes (.interrupt status data :: events) = bytes events :=
  List.filterMap_cons_none (if_pos other)

theorem bytes_mouse (aux : status &&& 0x20 ≠ 0) (data : UInt8) :
    bytes (.interrupt status data :: events) = data :: bytes events :=
  List.filterMap_cons_some (if_neg aux)

/-- The driver is where the packets move it, however their bytes come. -/
theorem driver_follows (events : List Event) {s : System} (begun : Begun s.driver) :
    mouseGetState (events.foldl (handle g) s).driver =
      (packets (pending s.driver ++ bytes events)).foldl (Packet.move g) (mouseGetState s.driver) := by
  induction events generalizing s with
  | nil =>
    change _ = (packets (pending s.driver ++ [])).foldl _ _
    rw [List.append_nil, packets_pending begun]
    rfl
  | cons event events ih =>
    rw [List.foldl_cons]
    cases event with
    | put c => exact ih begun
    | interrupt status data =>
      by_cases other : status &&& 0x20 = 0
      · have same : (handle g s (.interrupt status data)).driver = s.driver := by
          change (mouseIsr g s.driver status data).1 = s.driver
          rw [isr_other other]
        rw [ih (by rw [same]; exact begun), same, bytes_other other]
      · obtain ⟨begins, moved, -⟩ := isr_byte begun other (bytes events)
        rw [bytes_mouse other, moved]
        exact ih begins

theorem inside_follows (events : List Event) {s : System} (begun : Begun s.driver)
    (inside : Inside g (mouseGetState s.driver)) :
    Inside g (mouseGetState (events.foldl (handle g) s).driver) := by
  induction events generalizing s with
  | nil => exact inside
  | cons event events ih =>
    rw [List.foldl_cons]
    cases event with
    | put c => exact ih begun inside
    | interrupt status data =>
      obtain ⟨begins, stays⟩ := isr_keeps begun inside status data
      exact ih begins stays

theorem console_follows (events : List Event) (s : System) :
    (events.foldl (handle g) s).console = MouseCursor.run g s.console (actions g s.driver events) := by
  induction events generalizing s with
  | nil => rfl
  | cons event events ih =>
    rw [List.foldl_cons, ih]
    cases event with
    | put c => rfl
    | interrupt status data =>
      conv_rhs => unfold actions
      unfold handle
      dsimp only
      by_cases drawn : (mouseIsr g s.driver status data).2 = true
      · rw [if_pos drawn, if_pos drawn]
        rfl
      · rw [if_neg drawn, if_neg drawn]

/-- The positions that the driver draws at are on the screen. -/
theorem actions_places (sized : 0 < g.width ∧ 0 < g.height) (events : List Event) (begun : Begun m)
    (inside : Inside g (mouseGetState m)) : ∀ a ∈ actions g m events, OnScreen g a := by
  induction events generalizing m with
  | nil =>
    intro a member
    cases member
  | cons event events ih =>
    cases event with
    | put c =>
      intro a member
      rcases List.mem_cons.mp member with rfl | member
      · trivial
      · exact ih begun inside a member
    | interrupt status data =>
      obtain ⟨begins, stays⟩ := isr_keeps begun inside status data
      unfold actions
      split
      · intro a member
        rcases List.mem_cons.mp member with rfl | member
        · exact onScreen_inside sized stays
        · exact ih begins stays a member
      · exact ih begins stays

/-- Drawing leaves the text as it is. -/
theorem typed_actions (events : List Event) (m : Driver) (q : Graphics) :
    typed g q (actions g m events) = (text events).foldl (kputChar g) q := by
  induction events generalizing m q with
  | nil => rfl
  | cons event events ih =>
    cases event with
    | put c => exact ih m (kputChar g q c)
    | interrupt status data =>
      have others := ih (mouseIsr g m status data).1 q
      unfold actions
      split
      · exact others
      · exact others

end

theorem initialize_begun (g : Screen) (m : Driver) : Begun (mouseInitialize g m) :=
  ⟨Nat.zero_le 2, fun cycle => absurd rfl cycle⟩

/-- After any interrupts and any text, the pointer is where the packets of the mouse move
it from the centre, and that is on the screen. -/
theorem pointer_follows (g : Screen) (s : System) (events : List Event) :
    mouseGetState (events.foldl (handle g) (start g s)).driver =
        (packets (bytes events)).foldl (Packet.move g) (centre g) ∧
      Inside g (mouseGetState (events.foldl (handle g) (start g s)).driver) :=
  ⟨driver_follows events (initialize_begun g s.driver),
    inside_follows events (initialize_begun g s.driver) (centre_inside g)⟩

/-- Text that stays away from the pointer is there when the pointer is taken away. -/
theorem text_follows (g : Screen) (s : System) (events : List Event) (sized : 0 < g.width ∧ 0 < g.height)
    (hidden : s.console.mouse.rendered = false)
    (spared : Spared g s.console (allActions g s.driver events)) :
    (kconsoleRestoreMouseCursor g (events.foldl (handle g) (start g s)).console).graphics.fb =
      ((text events).foldl (kputChar g) s.console.graphics).fb := by
  have begun := initialize_begun g s.driver
  have inside : Inside g (mouseGetState (mouseInitialize g s.driver)) := centre_inside g
  have places : ∀ a ∈ allActions g s.driver events, OnScreen g a := by
    intro a member
    rcases List.mem_cons.mp member with rfl | member
    · exact onScreen_inside sized inside
    · exact actions_places sized events begun inside a member
  have plain : Over g s.console.mouse s.console.graphics s.console.graphics := ⟨rfl, .inl ⟨hidden, rfl⟩⟩
  have covers := run_over plain places spared
  have console : (events.foldl (handle g) (start g s)).console =
      MouseCursor.run g s.console (allActions g s.driver events) := console_follows events (start g s)
  have typing : typed g s.console.graphics (allActions g s.driver events) =
      (text events).foldl (kputChar g) s.console.graphics :=
    typed_actions events (mouseInitialize g s.driver) s.console.graphics
  rw [console, restore_masked _ covers.masked, typing]

def smallSystem : System := ⟨⟨0, 0, 0, 0, 0, 0, 0⟩, smallConsole⟩

/-- A packet that moves the pointer to the corner below, and a character. -/
def someEvents : List Event :=
  [.interrupt 0x21 0x28, .interrupt 0x01 0x1C, .interrupt 0x21 9, .interrupt 0x21 0xFA, .put carriageReturn]

example :
    (kconsoleRestoreMouseCursor smallScreen
      (someEvents.foldl (handle smallScreen) (start smallScreen smallSystem)).console).graphics.fb =
      ((text someEvents).foldl (kputChar smallScreen) smallConsole.graphics).fb := by
  refine text_follows smallScreen smallSystem someEvents (by decide) rfl ?_
  have drawn : allActions smallScreen smallSystem.driver someEvents =
    [.draw 4 24, .draw 7 30, .put carriageReturn] := by rfl
  rw [drawn]
  refine ⟨fun _ => ?_, trivial⟩
  -- the line of the text cursor ends above the sprite
  have above : Clear (MouseCursor.run smallScreen smallConsole [.draw 4 24, .draw 7 30]).mouse 0 14 8 2 := by
    intro cx column cy row under
    have low : (30 : Int) ≤ ((14 + cy) % 2 ^ 32 : Nat) := under.2.1
    omega
  refine ⟨fun scrolls => absurd scrolls.2 (by decide +kernel), above, fun place drawn => ?_, above⟩
  cases drawn

end MeowMeowOS.MousePackets
