import Mathlib.Data.DFinsupp.WellFounded
import Mathlib.Logic.Relation
import MeowMeowOS.Fat16Directory

/-! The loop that frees a chain ends, whatever the table holds. The copy for the
second table goes to a higher sector than the entry that is cleared, so of the
sectors that clusters number, read as digits with the lowest sector in front,
the count of live entries goes down. -/
namespace MeowMeowOS.FreedChains
open ByteMemory Fat16Disk Fat16Directory

/-- One round of the loop. -/
def freeRound (state : Volume × Nat) : Volume × Nat :=
  (setFatEntry state.1 state.2 0x0000, getFatEntry state.1 state.2)

/-- The loop gets from the one volume and cluster to the other. -/
def Comes : Volume × Nat → Volume × Nat → Prop :=
  Relation.ReflTransGen fun state next => InChain state.2 ∧ next = freeRound state

/-- The loop reads or writes the sector. -/
def Addresses (v : Volume) (c lba : Nat) : Prop :=
  ∃ w d, Comes (v, c) (w, d) ∧ InChain d ∧
    (lba = w.fs.reservedSectors + d * 2 / 512 ∨ lba = w.fs.reservedSectors + w.fs.sectorsPerFat + d * 2 / 512)

/-- The fields are `uint16_t`. -/
def HalfWords (v : Volume) : Prop := v.fs.reservedSectors < 2 ^ 16 ∧ v.fs.sectorsPerFat < 2 ^ 16

/-- Entry `i` of a sector. -/
def sectorEntry (v : Volume) (sector i : Nat) : Nat :=
  readHalf (kdiskReadSector v.disk (v.fs.reservedSectors + sector)) (i * 2)

/-- How many entries of a sector are not 0. -/
def liveCount (v : Volume) (sector : Nat) : Nat :=
  ((Finset.range 256).filter fun i => sectorEntry v sector i ≠ 0).card

/-- The counts of the 256 sectors that a cluster number reaches. -/
def liveCounts (v : Volume) : Lex (Fin 256 → Nat) := toLex fun sector => liveCount v sector

section
variable {v w : Volume} {c d lba sector : Nat}

theorem getFatEntry_entry (v : Volume) (c : Nat) : getFatEntry v c = sectorEntry v (c / 256) (c % 256) :=
  (tableEntry_eq v c).symm

/-- The sectors up to that of the entry: those before it are left alone. -/
theorem sectorEntry_cleared (widths : HalfWords v) (small : c < 2 ^ 16)
    (exist : v.fs.reservedSectors + c / 256 < v.disk.total) (before : sector ≤ c / 256) (inside : i < 256) :
    sectorEntry (setFatEntry v c 0x0000) sector i =
      if sector = c / 256 ∧ i = c % 256 then 0 else sectorEntry v sector i := by
  obtain ⟨reserved, perFat⟩ := widths
  have place : c * 2 / 512 = c / 256 ∧ c * 2 % 512 = c % 256 * 2 := by omega
  unfold sectorEntry setFatEntry
  dsimp only
  rw [place.1, place.2, kdiskRead_write, kdiskRead_write]
  by_cases own : sector = c / 256
  · subst own
    have first : (v.fs.reservedSectors + c / 256) % 2 ^ 23 = (v.fs.reservedSectors + c / 256) % 2 ^ 23 ∧
        (v.fs.reservedSectors + c / 256) % 2 ^ 23 < v.disk.total := ⟨rfl, by omega⟩
    rw [if_pos first, ite_self]
    by_cases same : i = c % 256
    · subst same
      rw [if_pos ⟨rfl, rfl⟩, readHalf_writeHalf, Nat.zero_mod]
    · rw [if_neg fun both => same both.2, readHalf_writeHalf_apart]
      omega
  · rw [if_neg (by omega), if_neg (by omega), if_neg fun both => own both.1]

theorem liveCounts_less (widths : HalfWords v) (small : c < 2 ^ 16)
    (exist : v.fs.reservedSectors + c / 256 < v.disk.total) (live : getFatEntry v c ≠ 0) :
    liveCounts (setFatEntry v c 0x0000) < liveCounts v := by
  have sector : c / 256 < 256 := by omega
  refine ⟨⟨c / 256, sector⟩, fun lower less => ?_, ?_⟩
  · have before : lower.val < c / 256 := less
    change liveCount (setFatEntry v c 0x0000) lower = liveCount v lower
    unfold liveCount
    refine congrArg Finset.card (Finset.filter_congr fun i member => ?_)
    rw [sectorEntry_cleared widths small exist (Nat.le_of_lt before) (Finset.mem_range.mp member), if_neg (by omega)]
  · change liveCount (setFatEntry v c 0x0000) (c / 256) < liveCount v (c / 256)
    refine Finset.card_lt_card (Finset.ssubset_iff_of_subset ?_ |>.mpr ⟨c % 256, ?_, ?_⟩)
    · intro i member
      rw [Finset.mem_filter, Finset.mem_range] at member ⊢
      obtain ⟨inside, kept⟩ := member
      rw [sectorEntry_cleared widths small exist (Nat.le_refl _) inside] at kept
      split at kept
      · exact absurd rfl kept
      · exact ⟨inside, kept⟩
    · rw [Finset.mem_filter, Finset.mem_range]
      exact ⟨Nat.mod_lt c (by decide), getFatEntry_entry v c ▸ live⟩
    · rw [Finset.mem_filter]
      rintro ⟨inside, kept⟩
      rw [sectorEntry_cleared widths small exist (Nat.le_refl _) (Finset.mem_range.mp inside),
        if_pos ⟨rfl, rfl⟩] at kept
      exact kept rfl

theorem comes_fs (comes : Comes (v, c) (w, d)) : w.fs = v.fs := by
  suffices ∀ state, Comes (v, c) state → state.1.fs = v.fs from this (w, d) comes
  intro state reached
  induction reached with
  | refl => rfl
  | tail _ round ih =>
    obtain ⟨-, rfl⟩ := round
    exact ih

/-- No sector that the loop addresses lies behind those of the last cluster number. -/
theorem addresses_below (addressed : Addresses v c lba) : lba ≤ v.fs.reservedSectors + v.fs.sectorsPerFat + 255 := by
  obtain ⟨w, d, comes, inChain, place⟩ := addressed
  rw [comes_fs comes] at place
  omega

/-- Freeing a chain ends on every disk that has the sectors which it addresses. -/
theorem freeChain_ends (v : Volume) (c : Nat) (widths : HalfWords v)
    (exist : ∀ lba, Addresses v c lba → lba < v.disk.total) :
    ∃ fuel w, freeChain fuel v c = some w := by
  induction v using (InvImage.wf liveCounts wellFounded_lt).induction generalizing c with
  | _ v ih =>
    by_cases inChain : InChain c
    · have first : v.fs.reservedSectors + c * 2 / 512 < v.disk.total :=
        exist _ ⟨v, c, Relation.ReflTransGen.refl, inChain, .inl rfl⟩
      have sector : c * 2 / 512 = c / 256 := by omega
      have small : c < 2 ^ 16 := by omega
      rw [sector] at first
      by_cases live : getFatEntry v c = 0
      · refine ⟨2, setFatEntry v c 0x0000, ?_⟩
        rw [freeChain, if_pos inChain, live]
        rfl
      · have less := liveCounts_less widths small first live
        obtain ⟨fuel, w, ran⟩ := ih (setFatEntry v c 0x0000) less (getFatEntry v c) widths fun lba addressed => by
          obtain ⟨w, d, comes, goesOn, place⟩ := addressed
          rw [setFatEntry_total]
          exact exist lba ⟨w, d, Relation.ReflTransGen.head ⟨inChain, rfl⟩ comes, goesOn, place⟩
        refine ⟨fuel + 1, w, ?_⟩
        rw [freeChain, if_pos inChain]
        exact ran
    · exact ⟨1, v, if_neg inChain⟩

/-- Clusters 2 and 3 link to each other, and every copy goes into the sector behind. -/
def linkedBoth : Volume :=
  ⟨⟨true, 0, 0, 0, 1, 1, 1, 0, []⟩, ⟨1000, fun _ => writeHalf (writeHalf (fun _ => 0xAA) 4 3) 6 2⟩⟩

theorem freeChain_ends_linkedBoth : ∃ fuel w, freeChain fuel linkedBoth 2 = some w :=
  freeChain_ends linkedBoth 2 ⟨by decide, by decide⟩ fun lba addressed =>
    Nat.lt_of_le_of_lt (addresses_below addressed) (by decide)

end

end MeowMeowOS.FreedChains
