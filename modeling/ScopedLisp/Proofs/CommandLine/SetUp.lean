import ScopedLisp.CommandLine.Program
import ScopedLisp.Proofs.Session.Standard

/-!
# ScopedLisp.Proofs.CommandLine.SetUp

The interpreter that the command line sets up begins a standard session (`setUp_begins`).  What comes
before it is made, the choice of a log level and the reports about the settings, leaves the heap empty
and the limit on nested calls alone.
-/

namespace ScopedLisp.CommandLine

namespace Activity

variable {α β : Type} {activity : Activity α} {console after : Console}

/-- Activities in a row succeed as each of them does. -/
theorem bind_eq_ok {next : α → Activity β} {b : β} (h : (activity >>= next) console = .ok b after) :
    ∃ a mid, activity console = .ok a mid ∧ next a mid = .ok b after := by
  cases hactivity : activity console with
  | error fault mid =>
      rw [bind_of_error hactivity] at h
      cases h
  | ok a mid =>
      rw [bind_of_ok hactivity] at h
      exact ⟨a, mid, rfl, h⟩

/-- A step that has succeeded, but for its log. -/
theorem step_eq_ok {run : Step α} {a : α} (h : step run console = .ok a after) :
    ∃ session, run console.session = .ok a session ∧ after.session = { session with log := #[] } := by
  obtain ⟨session, output⟩ := console
  simp only [step] at h
  cases hrun : run session with
  | error error last =>
      rw [hrun] at h
      cases h
  | ok a last =>
      rw [hrun] at h
      cases h
      exact ⟨last, rfl, rfl⟩

/-- A success leaves the heap as it was, and allows as many nested calls as before or more. -/
def Quiet (activity : Activity α) : Prop :=
  ∀ console a after, activity console = .ok a after →
    after.session.heap = console.session.heap ∧
      console.session.depthLimit ≤ after.session.depthLimit

/-- A quiet step of a session is a quiet activity. -/
theorem quiet_step {run : Step α} (quiet : run.Quiet) : Quiet (step run) := by
  intro console a after h
  obtain ⟨session, hrun, eq⟩ := step_eq_ok h
  have := quiet console.session
  rw [Step.sessionAfter_of_ok hrun] at this
  rw [eq]
  exact this

/-- Quiet activities in a row are quiet. -/
theorem Quiet.bind {next : α → Activity β} (first : Quiet activity) (second : ∀ a, Quiet (next a)) :
    Quiet (activity >>= next) := by
  intro console b after h
  obtain ⟨a, mid, hactivity, hnext⟩ := bind_eq_ok h
  obtain ⟨heap, limit⟩ := first _ _ _ hactivity
  obtain ⟨heap', limit'⟩ := second a _ _ _ hnext
  exact ⟨heap'.trans heap, Nat.le_trans limit limit'⟩

/-- To print is quiet. -/
theorem quiet_write (output : Output) : Quiet (write output) := by
  rintro _ _ _ ⟨⟩
  exact ⟨rfl, Nat.le_refl _⟩

end Activity

/-- To print records is quiet. -/
theorem quiet_writeBare : (records : List LogRecord) → Activity.Quiet (writeBare records)
  | [] => by
      rintro _ _ _ ⟨⟩
      exact ⟨rfl, Nat.le_refl _⟩
  | r :: rs => by
      have message : Step.Quiet (Step.query r.message?) := by
        intro session
        rw [Step.sessionAfter, Step.query]
        cases r.message? session.heap <;> exact ⟨rfl, Nat.le_refl _⟩
      rw [writeBare]
      refine (Activity.quiet_step message).bind fun text => ?_
      exact (Activity.quiet_write _).bind fun _ => quiet_writeBare rs

/-- To choose the level of the log is quiet. -/
theorem quiet_chooseLevel (settings : Settings) (given : Option LogLevel) :
    Activity.Quiet (chooseLevel settings given) := by
  unfold chooseLevel
  refine (quiet_writeBare _).bind fun _ => Activity.quiet_step fun session => ?_
  exact ⟨rfl, Nat.le_refl _⟩

/-- The interpreter that is set up begins a standard session, in which calls may be nested. -/
theorem setUp_begins {settings : Settings} {level : Option LogLevel} {interpreter : Interpreter}
    {console : Console} (h : setUp settings level .start = .ok interpreter console) :
    interpreter.Begins console.session ∧ 0 < console.session.depthLimit := by
  obtain ⟨_, mid, chosen, created⟩ := Activity.bind_eq_ok h
  obtain ⟨heap, limit⟩ := quiet_chooseLevel settings level _ _ _ chosen
  obtain ⟨session, made, eq⟩ := Activity.step_eq_ok created
  obtain ⟨begins, limit'⟩ := Interpreter.create_begins heap made
  rw [eq]
  refine ⟨⟨begins.root, begins.heap⟩, ?_⟩
  have least : 0 < Session.leastDepthLimit := by decide
  exact Nat.lt_of_lt_of_le least (Nat.le_trans limit limit')

end ScopedLisp.CommandLine
