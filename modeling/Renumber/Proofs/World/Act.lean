import Renumber.Proofs.Outcome
import Renumber.World.Files

/-!
# Running actions

Asking the disk and doing deeds on it are the steps that actions on a world are made of.
-/

namespace Renumber.World

open Outcome
open Renumber.Time (Instant)

variable {ε α β : Type} {w w' : World} {p : Path} {content : List UInt8}

theorem run_ask (f : Disk → Location → Except DiskFault α) (w : World) :
    (ask f).run.run w = (f w.disk w.cwd, w) := by
  rw [ask, Outcome.run_bind, Outcome.run_get]
  dsimp only
  cases f w.disk w.cwd <;> rfl

/-- The world after a deed that was done, with the disk that the deed leaves. -/
def afterDeed (w : World) (deed : Deed) (disk : Disk) : World :=
  { w with
    disk
    clock := w.clock.after clockStep
    deeds := deed.anchored w.folder :: w.deeds }

@[simp] theorem afterDeed_disk (w : World) (deed : Deed) (disk : Disk) :
    (w.afterDeed deed disk).disk = disk := rfl

@[simp] theorem afterDeed_cwd (w : World) (deed : Deed) (disk : Disk) :
    (w.afterDeed deed disk).cwd = w.cwd := rfl

/-- A deed reads the clock and then changes the disk, or nothing else. -/
theorem run_act (deed : Deed) (w : World) :
    (act deed).run.run w = match deed.doOn w.disk w.clock w.cwd with
      | .ok disk => (.ok (), w.afterDeed deed disk)
      | .error fault => (.error fault, { w with clock := w.clock.after clockStep }) := by
  change ((match deed.doOn w.disk w.clock w.cwd with
    | .ok disk =>
      (set { w with
        disk
        clock := w.clock.after clockStep
        deeds := deed.anchored w.folder :: w.deeds } : Act DiskFault Unit)
    | .error fault => throw fault).run.run { w with clock := w.clock.after clockStep }) = _
  cases deed.doOn w.disk w.clock w.cwd <;> rfl

theorem act_eq_ok {deed : Deed} (acted : (act deed).run.run w = (.ok (), w')) :
    ∃ disk, deed.doOn w.disk w.clock w.cwd = .ok disk ∧ w' = w.afterDeed deed disk := by
  rw [run_act] at acted
  cases did : deed.doOn w.disk w.clock w.cwd with
  | error fault =>
      rw [did] at acted
      cases acted
  | ok disk =>
      rw [did] at acted
      exact ⟨disk, rfl, (Prod.mk.inj acted).2.symm⟩

/-- Bytes are written to a file that was opened for them. -/
theorem act_write_eq_ok (written : (act (.write p content)).run.run w = (.ok (), w')) :
    ∃ d id, w.disk.openFile w.clock w.cwd p = .ok (d, id) ∧
      w' = w.afterDeed (.write p content) (d.writeFile w.clock id content) := by
  obtain ⟨disk, did, rfl⟩ := act_eq_ok written
  rw [Deed.doOn] at did
  cases opened : w.disk.openFile w.clock w.cwd p with
  | error fault =>
      rw [opened] at did
      cases did
  | ok out =>
      rw [opened] at did
      exact ⟨out.1, out.2, rfl, congrArg _ (Except.ok.inj did).symm⟩

theorem act_openFile_eq_ok (opens : (act (.openFile p)).run.run w = (.ok (), w')) :
    ∃ d id, w.disk.openFile w.clock w.cwd p = .ok (d, id) ∧ w' = w.afterDeed (.openFile p) d := by
  obtain ⟨disk, did, rfl⟩ := act_eq_ok opens
  rw [Deed.doOn] at did
  cases opened : w.disk.openFile w.clock w.cwd p with
  | error fault =>
      rw [opened] at did
      cases did
  | ok out =>
      rw [opened] at did
      exact ⟨out.1, out.2, rfl, congrArg _ (Except.ok.inj did).symm⟩

end Renumber.World
