import Thrille.Lib.Ensures
import Thrille.Tinertia

namespace Thrille

-- A schedule that a pass may give back for `sched`.
structure Schedule.Improves (sched result : Schedule) : Prop where
  error : result.error = sched.error
  switches : result._getContextSwitches ≤ sched._getContextSwitches

namespace Schedule.Improves

theorem refl (sched : Schedule) : sched.Improves sched := ⟨rfl, Nat.le_refl _⟩

theorem trans {first second third : Schedule} (hfirst : first.Improves second)
    (hsecond : second.Improves third) : first.Improves third :=
  ⟨hsecond.error.trans hfirst.error, hsecond.switches.trans hfirst.switches⟩

end Schedule.Improves

namespace Simplifier

variable {τ : Type} {tester : Tester τ}

-- A deadlock that the tester finds again in a schedule without context switches.
def deadlockSchedule : Schedule where
  schedule := [
    { chosen := some "0", caller := some "0", type := "After_Create", addr := "0x401000"
      enabled := [some "0", some "1"] },
    { chosen := some "1", caller := some "0", type := "Before_Lock", addr := "0x401004"
      enabled := [some "0", some "1"] },
    { chosen := some "1", caller := some "1", type := "Before_Lock", addr := "0x401008"
      enabled := [some "1"] }]
  addrlist := ["all"]
  error := some "program deadlock by 1"

def deadlockTester : Tester Unit :=
  Tester.withThrillers (fun sched => return { sched with error := deadlockSchedule.error })
    fun _ => return ({ deadlockSchedule with schedule := deadlockSchedule.schedule.take 1 }, false)

end Simplifier

end Thrille
