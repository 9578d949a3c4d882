import HomeSync.Bus.Run

/-
Accounts of what is done on a bus.

A run lists deliveries only, one after the other, and does not say what came of what.
An account says it: it gives every task together with the account of all that followed
from it, and then goes on with the task that had to wait meanwhile.  So the account of
an operation holds its own deliveries, each with the operations that were performed
about it, and it ends where the operation returns.  Every run has exactly one account.
-/
namespace HomeSync
namespace Bus

def Task.operation? : Task → Option Operation
  | .deliver _ => none
  | .perform op => some op

inductive Account where
  | done
  /-- A task, what followed from it, and what was done when all that was over. -/
  | next (t : Task) (within later : Account)

namespace Account

/-- The tasks that are accounted for one after the other. -/
def tasks : Account → List Task
  | done => []
  | next t _ later => t :: later.tasks

/-- All deliveries in the order in which they are made. -/
def deliveries : Account → List Delivery
  | done => []
  | next t within later => t.delivery?.toList ++ within.deliveries ++ later.deliveries

/-- All operations in the order in which they begin. -/
def operations : Account → List Operation
  | done => []
  | next t within later => t.operation?.toList ++ within.operations ++ later.operations

/-- The bus at the end, if it is the given one at the beginning. -/
def final (bus : Bus) : Account → Bus
  | done => bus
  | next t within later => later.final (within.final (bus.after t))

/-- Each task is followed by its consequences, as the bus has them at that moment. -/
def Fits (bus : Bus) : Account → Prop
  | done => True
  | next t within later =>
    within.tasks = bus.consequences t ∧ within.Fits (bus.after t) ∧
      later.Fits (within.final (bus.after t))

def append : Account → Account → Account
  | done, rest => rest
  | next t within later, rest => next t within (later.append rest)

/-! ## One account after the other -/

theorem deliveries_append (a rest : Account) :
    (a.append rest).deliveries = a.deliveries ++ rest.deliveries := by
  induction a with
  | done => rfl
  | next t within later _ ih =>
    rw [append, deliveries, deliveries, ih, List.append_assoc (t.delivery?.toList ++ _)]

theorem final_append (bus : Bus) (a rest : Account) :
    (a.append rest).final bus = rest.final (a.final bus) := by
  induction a generalizing bus with
  | done => rfl
  | next t within later _ ih => rw [append, final, final, ih]

theorem fits_append {bus : Bus} {a rest : Account} :
    (a.append rest).Fits bus ↔ a.Fits bus ∧ rest.Fits (a.final bus) := by
  induction a generalizing bus with
  | done => exact (and_iff_right trivial).symm
  | next t within later _ ih =>
    rw [append, Fits, Fits, final, ih, and_assoc, and_assoc]

/-- An account of tasks is one of the first of them and one of the others. -/
theorem exists_append {a : Account} {first others : List Task} (h : a.tasks = first ++ others) :
    ∃ b rest : Account, a = b.append rest ∧ b.tasks = first ∧ rest.tasks = others := by
  induction first generalizing a with
  | nil => exact ⟨done, a, rfl, rfl, h⟩
  | cons t ts ih =>
    cases a with
    | done => exact absurd h (by simp [tasks])
    | next t' within later =>
      obtain ⟨rfl, hlater⟩ := List.cons.inj h
      obtain ⟨b, rest, rfl, hb, hrest⟩ := ih hlater
      exact ⟨next t' within b, rest, rfl, by rw [tasks, hb], hrest⟩

/-! ## Runs and accounts -/

/-- What is done on a bus leaves no choice. -/
theorem eq_of_fits {bus : Bus} {a b : Account} (ha : a.Fits bus) (hb : b.Fits bus)
    (h : a.tasks = b.tasks) : a = b := by
  induction a generalizing bus b with
  | done =>
    cases b with
    | done => rfl
    | next t within later => exact absurd h (by simp [tasks])
  | next t within later ihwithin ihlater =>
    cases b with
    | done => exact absurd h (by simp [tasks])
    | next t' within' later' =>
      obtain ⟨rfl, htasks⟩ := List.cons.inj h
      obtain ⟨hroots, hwithin, hlater⟩ := ha
      obtain ⟨hroots', hwithin', hlater'⟩ := hb
      obtain rfl := ihwithin hwithin hwithin' (hroots.trans hroots'.symm)
      rw [ihlater hlater hlater' htasks]

end Account

/-- Every run can be accounted for.  The induction is on the run, which has the
consequences of a task and the tasks that wait on one stack. -/
theorem exists_account (bus : Bus) (tasks : List Task) :
    ∃ a : Account, a.tasks = tasks ∧ a.Fits bus ∧ bus.run tasks = (a.final bus, a.deliveries) := by
  induction bus, tasks using run.induct with
  | case1 bus => exact ⟨.done, rfl, trivial, by rw [run]; rfl⟩
  | case2 bus t rest ih =>
    obtain ⟨a, htasks, hfits, hrun⟩ := ih
    obtain ⟨within, later, rfl, hwithin, hlater⟩ := Account.exists_append htasks
    obtain ⟨hinside, houtside⟩ := Account.fits_append.mp hfits
    refine ⟨.next t within later, by rw [Account.tasks, hlater], ⟨hwithin, hinside, houtside⟩, ?_⟩
    rw [run, hrun, Account.final_append, Account.deliveries_append, Account.final,
      Account.deliveries, List.append_assoc]

end Bus
end HomeSync
