import ShaderAssembly.Proofs.FreshNumbers
import ShaderAssembly.Proofs.ReloadSteps

/-!
# The chain of active compilations

A live shader is shared by any number of callers. Some bring news of changed files: such a call
takes the active compilation, compiles if that is affected, which may fail, and swaps. Others
compile the root on their own and swap directly, naming whichever compilation they expect to find.
Between the steps of a call other calls and edits of files may come, in any order.

What a step can do is said once, as a list of moves. As every compilation has a number of its own,
one that is still to be swapped in has never been active. So each change of the active compilation
is the work of one call, which finds the compilation that it expects and puts a new one in its
place, and a compilation that has been replaced never comes back.
-/

namespace ShaderAssembly.LiveShader

variable {σ : Type}

/-- How far a call has come. -/
inductive Attempt where
  /-- It has not started. -/
  | waiting
  /-- It has taken the active compilation, which is affected. -/
  | taken (expected : Numbered Compilation)
  /-- It has taken a compilation and then made another one. -/
  | built (expected next : Numbered Compilation)
  /-- It has made a compilation, to be swapped in directly. -/
  | made (next : Numbered Compilation)
  /-- It has given its answer, having taken or named a compilation. -/
  | finished (expected : Numbered Compilation) (answer : Refresh)
  deriving DecidableEq

namespace Attempt

/-- The compilation that a call has taken or named. -/
def expected? : Attempt → Option (Numbered Compilation)
  | .taken expected | .built expected _ | .finished expected _ => some expected
  | .waiting | .made _ => none

/-- The compilation that a call has made and not swapped in yet. -/
def pending? : Attempt → Option (Numbered Compilation)
  | .built _ next | .made next => some next
  | .waiting | .taken _ | .finished .. => none

end Attempt

/-- A live shader among its calls. -/
structure Contest (σ : Type) where
  /-- The sources. -/
  sources : Numbering σ
  /-- The shader. -/
  shader : LiveShader
  /-- How far the calls have come. -/
  calls : Nat → Attempt

namespace Contest

/-- What can happen. -/
inductive Event (σ : Type) where
  /-- Files are edited, in whatever way. -/
  | edit (inner : σ)
  /-- A call with news of some files starts. -/
  | start (call : Nat) (changed : List SourcePath)
  /-- A call that has started compiles. -/
  | build (call : Nat)
  /-- A call that has started and compiled swaps. -/
  | swap (call : Nat)
  /-- The caller of a direct swap compiles the root. -/
  | make (call : Nat)
  /-- A direct swap, with the compilation that the caller expects to find. -/
  | offer (call : Nat) (expected : Numbered Compilation)

/-- The call that an event belongs to. -/
def Event.call? : Event σ → Option Nat
  | .edit _ => none
  | .start call _ | .build call | .swap call | .make call | .offer call _ => some call

/-- A shader whose calls have not started. -/
def ofLoaded (sources : Numbering σ) (shader : LiveShader) : Contest σ :=
  ⟨sources, shader, fun _ => .waiting⟩

/-- Notes how far a call has come. -/
def set (state : Contest σ) (call : Nat) (attempt : Attempt) : Contest σ :=
  { state with calls := Function.update state.calls call attempt }

/-- What a call compiles. -/
def made (compilers : Nat → Compiler σ) (state : Contest σ) (call : Nat) :
    Except Error (Numbered Compilation) :=
  (build (compilers call) state.shader.root).outcomeFrom state.sources

/-- The state after a call has compiled. -/
def afterMade (compilers : Nat → Compiler σ) (state : Contest σ) (call : Nat) : Contest σ :=
  { state with sources := (build (compilers call) state.shader.root).stateFrom state.sources }

/-- A call makes its compilation the active one if the one it expects is, and answers. -/
def exchange (state : Contest σ) (call : Nat) (expected next : Numbered Compilation) :
    Contest σ :=
  match (state.shader.replace expected next : Traced Empty (Refresh × LiveShader)).outcome with
  | .ok (answer, shader) => { state.set call (.finished expected answer) with shader }
  | .error impossible => nomatch impossible

/-- What an event does. An event out of turn does nothing. -/
def step (compilers : Nat → Compiler σ) (state : Contest σ) : Event σ → Contest σ
  | .edit inner => { state with sources := ⟨inner, state.sources.next⟩ }
  | .start call changed =>
    match state.calls call with
    | .waiting =>
      if state.shader.isAffected changed then state.set call (.taken state.shader.active)
      else state.set call (.finished state.shader.active .unaffected)
    | _ => state
  | .build call =>
    match state.calls call with
    | .taken expected =>
      match state.made compilers call with
      | .ok next => (state.afterMade compilers call).set call (.built expected next)
      | .error error =>
        (state.afterMade compilers call).set call (.finished expected (.failed error))
    | _ => state
  | .swap call =>
    match state.calls call with
    | .built expected next => state.exchange call expected next
    | _ => state
  | .make call =>
    match state.calls call with
    | .waiting =>
      match state.made compilers call with
      | .ok next => (state.afterMade compilers call).set call (.made next)
      | .error _ => state.afterMade compilers call
    | _ => state
  | .offer call expected =>
    match state.calls call with
    | .made next => state.exchange call expected next
    | _ => state

/-- What events in a row lead to. -/
def run (compilers : Nat → Compiler σ) (first : Contest σ) (events : List (Event σ)) : Contest σ :=
  events.foldl (step compilers) first

/-- One more event is one more step. -/
theorem run_concat (compilers : Nat → Compiler σ) (first : Contest σ) (events : List (Event σ))
    (event : Event σ) :
    run compilers first (events ++ [event]) =
      step compilers (run compilers first events) event := by
  rw [run, List.foldl_append]
  rfl

/-! ### What a step can do -/

/-- A call whose turn it is to swap, by an event of its own. -/
inductive IsReady (state : Contest σ) (call : Nat) (expected next : Numbered Compilation) :
    Event σ → Prop where
  /-- It has started and compiled. -/
  | swap (h : state.calls call = .built expected next) :
      IsReady state call expected next (.swap call)
  /-- Its caller has compiled. -/
  | offer (h : state.calls call = .made next) :
      IsReady state call expected next (.offer call expected)

/-- What a step can do. -/
inductive Moves (compilers : Nat → Compiler σ) (state : Contest σ) :
    Event σ → Contest σ → Prop where
  /-- No call gets further, and no compilation is made. -/
  | stay {event : Event σ} {inner : σ} :
      Moves compilers state event { state with sources := ⟨inner, state.sources.next⟩ }
  /-- A call takes the active compilation. -/
  | take {call : Nat} {changed : List SourcePath} (hwaiting : state.calls call = .waiting) :
      Moves compilers state (.start call changed) (state.set call (.taken state.shader.active))
  /-- A call finds that the active compilation is not affected. -/
  | ignore {call : Nat} {changed : List SourcePath} (hwaiting : state.calls call = .waiting) :
      Moves compilers state (.start call changed)
        (state.set call (.finished state.shader.active .unaffected))
  /-- A call that has taken the active compilation makes another one. -/
  | build {call : Nat} {expected next : Numbered Compilation} {inner : σ}
      (htaken : state.calls call = .taken expected)
      (hmade : state.made compilers call = .ok next) :
      Moves compilers state (.build call)
        (({ state with sources := ⟨inner, state.sources.next + 1⟩ } : Contest σ).set call
          (.built expected next))
  /-- A call that has taken the active compilation does not compile. -/
  | fail {call : Nat} {expected : Numbered Compilation} {error : Error} {inner : σ}
      (htaken : state.calls call = .taken expected) :
      Moves compilers state (.build call)
        (({ state with sources := ⟨inner, state.sources.next⟩ } : Contest σ).set call
          (.finished expected (.failed error)))
  /-- The caller of a direct swap makes a compilation. -/
  | make {call : Nat} {next : Numbered Compilation} {inner : σ}
      (hwaiting : state.calls call = .waiting)
      (hmade : state.made compilers call = .ok next) :
      Moves compilers state (.make call)
        (({ state with sources := ⟨inner, state.sources.next + 1⟩ } : Contest σ).set call
          (.made next))
  /-- A call finds the compilation it expects and puts its own in the place. -/
  | replace {event : Event σ} {call : Nat} {expected next : Numbered Compilation}
      (hready : IsReady state call expected next event)
      (hfound : state.shader.active.isSame expected = true) :
      Moves compilers state event
        { state.set call (.finished expected (.replaced next)) with
          shader := { state.shader with active := next } }
  /-- A call finds another compilation than it expects and drops its own. -/
  | drop {event : Event σ} {call : Nat} {expected next : Numbered Compilation}
      (hready : IsReady state call expected next event) :
      Moves compilers state event (state.set call (.finished expected .superseded))

section Moves

variable {compilers : Nat → Compiler σ} {state : Contest σ} {event : Event σ} {call : Nat}

/-- A compilation that has been made has the next number. -/
theorem made_eq_ok {next : Numbered Compilation} (h : state.made compilers call = .ok next) :
    next.number = state.sources.next ∧
      ∃ inner, state.afterMade compilers call =
        { state with sources := ⟨inner, state.sources.next + 1⟩ } := by
  unfold made at h
  obtain ⟨hcompile, -⟩ := compile_of_build h
  obtain ⟨houtcome, hstate⟩ := build_of_ok (compilers call) state.sources hcompile
  rw [afterMade, hstate]
  rw [houtcome] at h
  exact ⟨congrArg Numbered.number (Except.ok.inj h).symm, _, rfl⟩

/-- Where nothing could be compiled, no number is given out. -/
theorem made_eq_error {error : Error} (h : state.made compilers call = .error error) :
    ∃ inner, state.afterMade compilers call =
      { state with sources := ⟨inner, state.sources.next⟩ } := by
  unfold made at h
  cases hcompile : ((compilers call).compile state.shader.root.text).outcomeFrom
      state.sources.inner with
  | ok compilation =>
    rw [(build_of_ok (compilers call) state.sources hcompile).1] at h
    cases h
  | error other =>
    rw [afterMade, LiveShader.build, (Numbering.issue_onInner_of_error hcompile).2]
    exact ⟨_, rfl⟩

section Exchange

variable {expected next : Numbered Compilation}

/-- A call that finds the compilation it expects puts its own in the place. -/
theorem exchange_of_found (hfound : state.shader.active.isSame expected = true) :
    state.exchange call expected next =
      { state.set call (.finished expected (.replaced next)) with
        shader := { state.shader with active := next } } := by
  unfold exchange replace
  rw [hfound]
  rfl

/-- A call that finds another compilation than it expects drops its own. -/
theorem exchange_of_not_found (hother : state.shader.active.isSame expected = false) :
    state.exchange call expected next = state.set call (.finished expected .superseded) := by
  unfold exchange replace
  rw [hother]
  rfl

/-- A call whose turn it is to swap replaces the active compilation or drops its own. -/
theorem moves_exchange (h : IsReady state call expected next event) :
    Moves compilers state event (state.exchange call expected next) := by
  cases hfound : state.shader.active.isSame expected with
  | true =>
    rw [exchange_of_found hfound]
    exact .replace h hfound
  | false =>
    rw [exchange_of_not_found hfound]
    exact .drop h

end Exchange

/-- A step does what steps can do. -/
theorem moves_step (compilers : Nat → Compiler σ) (state : Contest σ) (event : Event σ) :
    Moves compilers state event (step compilers state event) := by
  cases event with
  | edit inner => exact .stay
  | start call changed =>
    simp only [step]
    split
    · next hwaiting =>
      split
      · exact .take hwaiting
      · exact .ignore hwaiting
    · exact .stay
  | build call =>
    simp only [step]
    split
    · next expected htaken =>
      cases hmade : state.made compilers call with
      | ok next =>
        obtain ⟨-, inner, hafter⟩ := made_eq_ok hmade
        rw [hafter]
        exact .build htaken hmade
      | error error =>
        obtain ⟨inner, hafter⟩ := made_eq_error hmade
        rw [hafter]
        exact .fail htaken
    · exact .stay
  | swap call =>
    simp only [step]
    split
    · next expected next hbuilt => exact moves_exchange (.swap hbuilt)
    · exact .stay
  | make call =>
    simp only [step]
    split
    · next hwaiting =>
      cases hmade : state.made compilers call with
      | ok next =>
        obtain ⟨-, inner, hafter⟩ := made_eq_ok hmade
        rw [hafter]
        exact .make hwaiting hmade
      | error error =>
        obtain ⟨inner, hafter⟩ := made_eq_error hmade
        rw [hafter]
        exact .stay
    · exact .stay
  | offer call expected =>
    simp only [step]
    split
    · next made hmade => exact moves_exchange (.offer hmade)
    · exact .stay

/-! ### What a move changes -/

section Changes

variable {after : Contest σ} (h : Moves compilers state event after)
include h

/-- The root stays. -/
theorem Moves.root_eq : after.shader.root = state.shader.root := by
  cases h <;> rfl

/-- Numbers are never taken back. -/
theorem Moves.next_le : state.sources.next ≤ after.sources.next := by
  cases h with
  | build | make => exact Nat.le_succ _
  | _ => exact Nat.le_refl _

/-- Calls that the event does not belong to stay where they are. -/
theorem Moves.calls_eq (hother : event.call? ≠ some call) :
    after.calls call = state.calls call := by
  cases h with
  | stay => rfl
  | take | ignore | build | fail | make =>
    exact Function.update_of_ne (fun heq => hother (congrArg some heq.symm)) _ _
  | replace hready | drop hready =>
    cases hready <;> exact Function.update_of_ne (fun heq => hother (congrArg some heq.symm)) _ _

/-- A new active compilation was to be swapped in by a call that has found the compilation it
expected and is finished. -/
theorem Moves.active_cases :
    after.shader.active = state.shader.active ∨
      ∃ call expected, event.call? = some call ∧ state.shader.active.isSame expected = true ∧
        (state.calls call).pending? = some after.shader.active ∧
        after.calls call = .finished expected (.replaced after.shader.active) := by
  cases h with
  | @replace _ call expected next hready hfound =>
    refine .inr ⟨call, expected, ?_⟩
    cases hready with
    | swap hbuilt =>
      exact ⟨rfl, hfound, congrArg Attempt.pending? hbuilt, Function.update_self ..⟩
    | offer hmade =>
      exact ⟨rfl, hfound, congrArg Attempt.pending? hmade, Function.update_self ..⟩
  | _ => exact .inl rfl

/-- A compilation that is to be swapped in was so before or has just been made. -/
theorem Moves.pending_cases {next : Numbered Compilation}
    (hpending : (after.calls call).pending? = some next) :
    (state.calls call).pending? = some next ∨
      (event = .build call ∨ event = .make call) ∧ state.made compilers call = .ok next ∧
        after.sources.next = state.sources.next + 1 := by
  by_cases hcall : event.call? = some call
  · cases h with
    | stay => exact .inl hpending
    | take | ignore | fail =>
      cases hcall
      simp [set, Attempt.pending?] at hpending
    | replace hready | drop hready =>
      cases hready <;> cases hcall <;> simp [set, Attempt.pending?] at hpending
    | build _ hmade =>
      cases hcall
      simp only [set, Function.update_self, Attempt.pending?, Option.some.injEq] at hpending
      exact .inr ⟨.inl rfl, hpending ▸ hmade, rfl⟩
    | make _ hmade =>
      cases hcall
      simp only [set, Function.update_self, Attempt.pending?, Option.some.injEq] at hpending
      exact .inr ⟨.inr rfl, hpending ▸ hmade, rfl⟩
  · rw [h.calls_eq hcall] at hpending
    exact .inl hpending

/-- An answer stays as it is. -/
theorem Moves.finished_eq {expected : Numbered Compilation} {answer : Refresh}
    (hfinished : state.calls call = .finished expected answer) :
    after.calls call = .finished expected answer := by
  by_cases hcall : event.call? = some call
  · cases h with
    | stay => exact hfinished
    | take hother | ignore hother | build hother | fail hother | make hother =>
      cases hcall
      exact absurd (hother.symm.trans hfinished) nofun
    | replace hready | drop hready =>
      cases hready with
      | swap hother | offer hother =>
        cases hcall
        exact absurd (hother.symm.trans hfinished) nofun
  · rw [h.calls_eq hcall, hfinished]

/-- A call that has put its compilation in place did so before or does it now. -/
theorem Moves.replaced_cases {expected next : Numbered Compilation}
    (hreplaced : after.calls call = .finished expected (.replaced next)) :
    state.calls call = .finished expected (.replaced next) ∨
      event.call? = some call ∧ state.shader.active.isSame expected = true ∧
        (state.calls call).pending? = some next ∧ after.shader.active = next := by
  by_cases hcall : event.call? = some call
  · cases h with
    | stay => exact .inl hreplaced
    | take | ignore | build | fail | make =>
      cases hcall
      simp [set] at hreplaced
    | replace hready hfound =>
      cases hready with
      | swap hready | offer hready =>
        cases hcall
        simp only [set, Function.update_self, Attempt.finished.injEq, Refresh.replaced.injEq]
          at hreplaced
        obtain ⟨rfl, rfl⟩ := hreplaced
        exact .inr ⟨rfl, hfound, congrArg Attempt.pending? hready, rfl⟩
    | drop hready =>
      cases hready <;> cases hcall <;> simp [set] at hreplaced
  · rw [h.calls_eq hcall] at hreplaced
    exact .inl hreplaced

/-- The compilation that a call expects is the one that was active when it started, or the one
that its caller names. -/
theorem Moves.expected_cases {expected : Numbered Compilation}
    (hexpected : (after.calls call).expected? = some expected) :
    (state.calls call).expected? = some expected ∨
      (∃ changed, event = .start call changed ∧ state.calls call = .waiting ∧
        state.shader.active = expected) ∨
      event = .offer call expected ∧ ∃ next, state.calls call = .made next := by
  by_cases hcall : event.call? = some call
  · cases h with
    | stay => exact .inl hexpected
    | take hwaiting | ignore hwaiting =>
      cases hcall
      simp only [set, Function.update_self, Attempt.expected?, Option.some.injEq] at hexpected
      exact .inr (.inl ⟨_, rfl, hwaiting, hexpected⟩)
    | build hother | fail hother =>
      cases hcall
      rw [hother]
      simpa [set, Attempt.expected?] using hexpected
    | make =>
      cases hcall
      simp [set, Attempt.expected?] at hexpected
    | replace hready | drop hready =>
      cases hready with
      | swap hready =>
        cases hcall
        rw [hready]
        simpa [set, Attempt.expected?] using hexpected
      | offer hready =>
        cases hcall
        simp only [set, Function.update_self, Attempt.expected?, Option.some.injEq] at hexpected
        exact .inr (.inr ⟨hexpected ▸ rfl, _, hready⟩)
  · rw [h.calls_eq hcall] at hexpected
    exact .inl hexpected

end Changes

end Moves

/-! ### Compilations are kept apart -/

/-- Whether no call has started, and the active compilation has a number. -/
structure IsUnstarted (first : Contest σ) : Prop where
  /-- The number of the active compilation has been given out. -/
  issued : first.shader.active.number < first.sources.next
  /-- No call has started. -/
  waiting : ∀ call, first.calls call = .waiting

/-- The active compilation after some events. -/
def activeAfter (compilers : Nat → Compiler σ) (first : Contest σ) (events : List (Event σ)) :
    Numbered Compilation := (run compilers first events).shader.active

/-- A call whose steps follow each other at once is an undisturbed call: it gives the same answer
and leaves the same. -/
theorem run_undisturbed (compilers : Nat → Compiler σ) (state : Contest σ) {call : Nat}
    (hwaiting : state.calls call = .waiting) (changed : List SourcePath) :
    ∃ answer after,
      (state.shader.notify (compilers call) changed).outcomeFrom state.sources =
        .ok (answer, after) ∧
      run compilers state [.start call changed, .build call, .swap call] =
        ⟨(state.shader.notify (compilers call) changed).stateFrom state.sources, after,
          Function.update state.calls call (.finished state.shader.active answer)⟩ := by
  cases haffected : state.shader.isAffected changed with
  | false =>
    obtain ⟨houtcome, hstate⟩ := notify_of_unaffected (compilers call) state.sources haffected
    refine ⟨_, _, houtcome, ?_⟩
    rw [hstate]
    simp [run, step, hwaiting, haffected, set]
  | true =>
    cases hcompile : ((compilers call).compile state.shader.root.text).outcomeFrom
        state.sources.inner with
    | error error =>
      obtain ⟨houtcome, hstate⟩ := notify_of_error (compilers call) state.sources haffected hcompile
      refine ⟨_, _, houtcome, ?_⟩
      have hbuild := Numbering.issue_onInner_of_error hcompile
      rw [hstate]
      simp [run, step, hwaiting, haffected, set, made, afterMade, LiveShader.build, hbuild]
    | ok compilation =>
      obtain ⟨houtcome, hstate⟩ := notify_of_ok (compilers call) state.sources haffected hcompile
      obtain ⟨hbuilt, hafter⟩ := build_of_ok (compilers call) state.sources hcompile
      refine ⟨_, _, houtcome, ?_⟩
      rw [hstate]
      have hfound : state.shader.active.isSame state.shader.active = true := beq_self_eq_true _
      simp [run, step, hwaiting, haffected, set, made, afterMade, hbuilt, hafter,
        exchange_of_found, hfound]

section Runs

variable {compilers : Nat → Compiler σ} {first : Contest σ} {events : List (Event σ)}
  {event : Event σ}

/-- One more event is one more move. -/
theorem moves_run (compilers : Nat → Compiler σ) (first : Contest σ) (events : List (Event σ))
    (event : Event σ) :
    Moves compilers (run compilers first events) event (run compilers first (events ++ [event])) :=
  run_concat compilers first events event ▸ moves_step compilers _ event

/-- Whether a number is that of a compilation that has been active. -/
def WasActive (compilers : Nat → Compiler σ) (first : Contest σ) (events : List (Event σ))
    (number : Nat) : Prop :=
  ∃ earlier, earlier <+: events ∧ (activeAfter compilers first earlier).number = number

/-- The number of the compilation that a call has still to swap in. -/
def pendingNumber? (state : Contest σ) (call : Nat) : Option Nat :=
  (state.calls call).pending?.map Numbered.number

/-- A compilation that becomes active was to be swapped in and is so no longer. -/
theorem wasActive_concat {number : Nat}
    (h : WasActive compilers first (events ++ [event]) number) :
    WasActive compilers first events number ∨
      ∃ call, (run compilers first events).pendingNumber? call = some number ∧
        (run compilers first (events ++ [event])).pendingNumber? call = none := by
  obtain ⟨earlier, hearlier, rfl⟩ := h
  rcases List.prefix_concat_iff.mp hearlier with rfl | hearlier
  · rcases (moves_run compilers first events event).active_cases with
      hsame | ⟨call, expected, -, -, hpending, hfinished⟩
    · exact .inl ⟨events, List.prefix_rfl, congrArg Numbered.number hsame.symm⟩
    · refine .inr ⟨call, ?_, ?_⟩
      · rw [pendingNumber?, hpending]
        rfl
      · rw [pendingNumber?, hfinished]
        rfl
  · exact .inl ⟨earlier, hearlier, rfl⟩

/-- A compilation that is to be swapped in was so before, or was made with the next number. -/
theorem pendingNumber_concat {call number : Nat}
    (h : (run compilers first (events ++ [event])).pendingNumber? call = some number) :
    (run compilers first events).pendingNumber? call = some number ∨
      event.call? = some call ∧ number = (run compilers first events).sources.next ∧
        (run compilers first events).sources.next <
          (run compilers first (events ++ [event])).sources.next := by
  obtain ⟨next, hpending, rfl⟩ := Option.map_eq_some_iff.mp h
  rcases (moves_run compilers first events event).pending_cases hpending with
    hold | ⟨hevent, hmade, hafter⟩
  · exact .inl (Option.map_eq_some_iff.mpr ⟨next, hold, rfl⟩)
  · refine .inr ⟨?_, (made_eq_ok hmade).1, hafter ▸ Nat.lt_succ_self _⟩
    rcases hevent with rfl | rfl <;> rfl

/-- Compilations that are still to be swapped in are neither each other nor one that has been
active. -/
theorem freshNumbers_run (hfirst : first.IsUnstarted) (events : List (Event σ)) :
    FreshNumbers (run compilers first events).sources.next (WasActive compilers first events)
      (run compilers first events).pendingNumber? := by
  induction events using List.reverseRecOn with
  | nil =>
    refine .of_unheld ?_ fun call => ?_
    · rintro _ ⟨earlier, hearlier, rfl⟩
      rw [List.prefix_nil.mp hearlier]
      exact hfirst.issued
    · rw [pendingNumber?, run, List.foldl_nil, hfirst.waiting call]
      rfl
  | append_singleton events event ih =>
    exact ih.step event.call? (moves_run compilers first events event).next_le
      (fun _ => wasActive_concat) fun _ _ => pendingNumber_concat

/-! ### The chain -/

/-- Whether an event after some others is the swap by which a call puts a new compilation in the
place of the one it expects. -/
structure Replaces (compilers : Nat → Compiler σ) (first : Contest σ) (before : List (Event σ))
    (event : Event σ) (call : Nat) (expected next : Numbered Compilation) : Prop where
  /-- The event belongs to the call. -/
  call : event.call? = some call
  /-- The expected compilation is the active one before the event. -/
  found : (activeAfter compilers first before).isSame expected = true
  /-- The new one is active after it. -/
  installed : activeAfter compilers first (before ++ [event]) = next
  /-- The new one has never been active before. -/
  new : ∀ earlier, earlier <+: before →
    (activeAfter compilers first earlier).isSame next = false

/-- A call that finds the compilation it expects replaces it by one that is new. -/
theorem replaces_of_pending (hfirst : first.IsUnstarted) {call : Nat}
    {expected next : Numbered Compilation} (hcall : event.call? = some call)
    (hfound : (activeAfter compilers first events).isSame expected = true)
    (hpending : ((run compilers first events).calls call).pending? = some next)
    (hinstalled : activeAfter compilers first (events ++ [event]) = next) :
    Replaces compilers first events event call expected next := by
  have hunseen := (freshNumbers_run hfirst events).unseen call next.number
    (Option.map_eq_some_iff.mpr ⟨next, hpending, rfl⟩)
  exact ⟨hcall, hfound, hinstalled, fun earlier hearlier =>
    beq_false_of_ne fun heq => hunseen ⟨earlier, hearlier, heq⟩⟩

/-- An event keeps the active compilation unless it is the swap of a call that replaces it. -/
theorem activeAfter_concat (hfirst : first.IsUnstarted) (events : List (Event σ))
    (event : Event σ) :
    activeAfter compilers first (events ++ [event]) = activeAfter compilers first events ∨
      ∃ call expected next, Replaces compilers first events event call expected next ∧
        (run compilers first (events ++ [event])).calls call =
          .finished expected (.replaced next) := by
  rcases (moves_run compilers first events event).active_cases with
    hsame | ⟨call, expected, hcall, hfound, hpending, hfinished⟩
  · exact .inl hsame
  · exact .inr ⟨call, expected, _, replaces_of_pending hfirst hcall hfound hpending rfl, hfinished⟩

/-- An answer that has been given stays as it is. -/
theorem calls_of_finished {before : List (Event σ)} (hbefore : before <+: events) {call : Nat}
    {expected : Numbered Compilation} {answer : Refresh}
    (hfinished : (run compilers first before).calls call = .finished expected answer) :
    (run compilers first events).calls call = .finished expected answer := by
  obtain ⟨rest, rfl⟩ := hbefore
  induction rest using List.reverseRecOn with
  | nil => rwa [List.append_nil]
  | append_singleton rest event ih =>
    rw [← List.append_assoc]
    exact (moves_run compilers first _ event).finished_eq ih

/-- A call that says so has replaced the compilation it expected. -/
theorem exists_replaces (hfirst : first.IsUnstarted) (events : List (Event σ)) {call : Nat}
    {expected next : Numbered Compilation}
    (hreplaced : (run compilers first events).calls call = .finished expected (.replaced next)) :
    ∃ before event, before ++ [event] <+: events ∧
      Replaces compilers first before event call expected next := by
  induction events using List.reverseRecOn with
  | nil =>
    rw [run, List.foldl_nil, hfirst.waiting call] at hreplaced
    cases hreplaced
  | append_singleton events event ih =>
    rcases (moves_run compilers first events event).replaced_cases hreplaced with
      hold | ⟨hcall, hfound, hpending, hinstalled⟩
    · obtain ⟨before, swap, hbefore, hreplaces⟩ := ih hold
      exact ⟨before, swap, hbefore.trans (List.prefix_append _ _), hreplaces⟩
    · exact ⟨events, event, List.prefix_rfl,
        replaces_of_pending hfirst hcall hfound hpending hinstalled⟩

/-- A compilation that is active at two moments is so at all moments between. -/
theorem activeAfter_between (hfirst : first.IsUnstarted) {early middle : List (Event σ)}
    (events : List (Event σ)) (hearly : early <+: middle) (hmiddle : middle <+: events)
    (hsame : (activeAfter compilers first early).isSame (activeAfter compilers first events) =
      true) :
    activeAfter compilers first middle = activeAfter compilers first events := by
  induction events using List.reverseRecOn with
  | nil => rw [List.prefix_nil.mp hmiddle]
  | append_singleton events event ih =>
    rcases List.prefix_concat_iff.mp hmiddle with rfl | hmiddle
    · rfl
    · rcases activeAfter_concat hfirst events event with
        hkept | ⟨call, expected, next, hreplaces, -⟩
      · rw [hkept] at hsame ⊢
        exact ih hmiddle hsame
      · rw [hreplaces.installed, hreplaces.new early (hearly.trans hmiddle)] at hsame
        cases hsame

/-- Of two swaps that replace the same compilation, none comes after the other. -/
theorem Replaces.not_before (hfirst : first.IsUnstarted) {before later : List (Event σ)}
    {swap other : Event σ} {call another : Nat}
    {expected again next following : Numbered Compilation}
    (hreplaces : Replaces compilers first before swap call expected next)
    (hagain : Replaces compilers first later other another again following)
    (hsame : expected.isSame again = true) : ¬ before ++ [swap] <+: later := by
  intro hlater
  have hnumber : (activeAfter compilers first before).number =
      (activeAfter compilers first later).number :=
    (beq_iff_eq.mp hreplaces.found).trans
      ((beq_iff_eq.mp hsame).trans (beq_iff_eq.mp hagain.found).symm)
  have hback := activeAfter_between hfirst later (List.prefix_append before [swap]) hlater
    (beq_iff_eq.mpr hnumber)
  have hnew := hreplaces.new before List.prefix_rfl
  rw [← hreplaces.installed, hback] at hnew
  exact absurd hnumber (ne_of_beq_false hnew)

/-- Of all calls that expect the same compilation one at the most replaces it. -/
theorem replaced_once (hfirst : first.IsUnstarted) {call other : Nat}
    {expected again next following : Numbered Compilation}
    (hreplaced : (run compilers first events).calls call = .finished expected (.replaced next))
    (hother : (run compilers first events).calls other = .finished again (.replaced following))
    (hsame : expected.isSame again = true) : call = other := by
  obtain ⟨before, swap, hbefore, hreplaces⟩ := exists_replaces hfirst events hreplaced
  obtain ⟨later, second, hlater, hagain⟩ := exists_replaces hfirst events hother
  have hback : again.isSame expected = true := beq_iff_eq.mpr (beq_iff_eq.mp hsame).symm
  rcases List.prefix_or_prefix_of_prefix hbefore hlater with horder | horder
  · rcases List.prefix_concat_iff.mp horder with heq | horder
    · obtain ⟨-, hswap⟩ := List.append_inj' heq rfl
      have hcalls := hreplaces.call
      rw [List.singleton_inj.mp hswap, hagain.call] at hcalls
      exact (Option.some.inj hcalls).symm
    · exact absurd horder (hreplaces.not_before hfirst hagain hsame)
  · rcases List.prefix_concat_iff.mp horder with heq | horder
    · obtain ⟨-, hswap⟩ := List.append_inj' heq rfl
      have hcalls := hreplaces.call
      rw [← List.singleton_inj.mp hswap, hagain.call] at hcalls
      exact (Option.some.inj hcalls).symm
    · exact absurd horder (hagain.not_before hfirst hreplaces hback)

/-- No event of a call that gives another answer changes the active compilation. -/
theorem activeAfter_of_finished (hfirst : first.IsUnstarted) {call : Nat}
    {expected : Numbered Compilation} {answer : Refresh}
    (hfinished : (run compilers first events).calls call = .finished expected answer)
    (hanswer : ∀ next, answer ≠ .replaced next) {before : List (Event σ)}
    (hbefore : before ++ [event] <+: events) (hcall : event.call? = some call) :
    activeAfter compilers first (before ++ [event]) = activeAfter compilers first before := by
  rcases activeAfter_concat hfirst before event with hkept | ⟨other, _, next, hreplaces, hreplaced⟩
  · exact hkept
  · obtain rfl := Option.some.inj (hcall.symm.trans hreplaces.call)
    rw [calls_of_finished hbefore hreplaced] at hfinished
    cases hfinished
    exact absurd rfl (hanswer next)

/-! ### Where compilations come from -/

/-- Whether a compilation was active when a call started, or is what a direct swap has named. -/
def StartsFrom (compilers : Nat → Compiler σ) (first : Contest σ) (events : List (Event σ))
    (call : Nat) (expected : Numbered Compilation) : Prop :=
  (∃ before changed, before ++ [.start call changed] <+: events ∧
    (run compilers first before).calls call = .waiting ∧
    activeAfter compilers first before = expected) ∨
  ∃ before next, before ++ [.offer call expected] <+: events ∧
    (run compilers first before).calls call = .made next

/-- The compilation that a call expects is the one it has started from. -/
theorem startsFrom_of_expected (hfirst : first.IsUnstarted) (events : List (Event σ)) {call : Nat}
    {expected : Numbered Compilation}
    (hexpected : ((run compilers first events).calls call).expected? = some expected) :
    StartsFrom compilers first events call expected := by
  induction events using List.reverseRecOn with
  | nil =>
    rw [run, List.foldl_nil, hfirst.waiting call] at hexpected
    cases hexpected
  | append_singleton events event ih =>
    have hlater := List.prefix_append events [event]
    rcases (moves_run compilers first events event).expected_cases hexpected with
      hold | ⟨changed, rfl, hwaiting, hactive⟩ | ⟨rfl, next, hmade⟩
    · rcases ih hold with ⟨before, changed, hbefore, hstarts⟩ | ⟨before, next, hbefore, hmade⟩
      · exact .inl ⟨before, changed, hbefore.trans hlater, hstarts⟩
      · exact .inr ⟨before, next, hbefore.trans hlater, hmade⟩
    · exact .inl ⟨events, changed, List.prefix_rfl, hwaiting, hactive⟩
    · exact .inr ⟨events, next, List.prefix_rfl, hmade⟩

/-- Whether a compilation is what a complete compile of the root has made during some events. -/
def IsCompiled (compilers : Nat → Compiler σ) (first : Contest σ) (events : List (Event σ))
    (compilation : Numbered Compilation) : Prop :=
  ∃ before event call, before ++ [event] <+: events ∧ (event = .build call ∨ event = .make call) ∧
    (LiveShader.build (compilers call) first.shader.root).outcomeFrom
      (run compilers first before).sources = .ok compilation

/-- The root stays. -/
theorem root_run (compilers : Nat → Compiler σ) (first : Contest σ) (events : List (Event σ)) :
    (run compilers first events).shader.root = first.shader.root := by
  induction events using List.reverseRecOn with
  | nil => rfl
  | append_singleton events event ih =>
    rw [(moves_run compilers first events event).root_eq, ih]

/-- What was made during some events was made during more of them. -/
theorem IsCompiled.concat {compilation : Numbered Compilation}
    (h : IsCompiled compilers first events compilation) (event : Event σ) :
    IsCompiled compilers first (events ++ [event]) compilation := by
  obtain ⟨before, made, call, hbefore, hmade⟩ := h
  exact ⟨before, made, call, hbefore.trans (List.prefix_append _ _), hmade⟩

/-- A compilation that is to be swapped in was compiled during the events. -/
theorem isCompiled_of_pending (hfirst : first.IsUnstarted) (events : List (Event σ)) {call : Nat}
    {next : Numbered Compilation}
    (hpending : ((run compilers first events).calls call).pending? = some next) :
    IsCompiled compilers first events next := by
  induction events using List.reverseRecOn with
  | nil =>
    rw [run, List.foldl_nil, hfirst.waiting call] at hpending
    cases hpending
  | append_singleton events event ih =>
    rcases (moves_run compilers first events event).pending_cases hpending with
      hold | ⟨hevent, hmade, -⟩
    · exact (ih hold).concat event
    · rw [made, root_run] at hmade
      exact ⟨events, event, call, List.prefix_rfl, hevent, hmade⟩

/-- The active compilation is the first one, or was compiled during the events. -/
theorem isCompiled_active (hfirst : first.IsUnstarted) (events : List (Event σ)) :
    activeAfter compilers first events = first.shader.active ∨
      IsCompiled compilers first events (activeAfter compilers first events) := by
  induction events using List.reverseRecOn with
  | nil => exact .inl rfl
  | append_singleton events event ih =>
    rcases (moves_run compilers first events event).active_cases with
      hsame | ⟨call, expected, -, -, hpending, -⟩
    · rw [activeAfter, hsame]
      exact ih.imp id fun hmade => hmade.concat event
    · exact .inr ((isCompiled_of_pending hfirst events hpending).concat event)

/-! ### Discipline -/

/-- What callers can rely on at every moment. -/
structure IsDisciplined (compilers : Nat → Compiler σ) (first : Contest σ)
    (events : List (Event σ)) : Prop where
  /-- The active compilation is the first one, or the result of a complete compile of the root. -/
  compiled : activeAfter compilers first events = first.shader.active ∨
    IsCompiled compilers first events (activeAfter compilers first events)
  /-- What an answered call has compared the active compilation with is the one it has started
  from. -/
  started : ∀ call expected answer,
    (run compilers first events).calls call = .finished expected answer →
      StartsFrom compilers first events call expected
  /-- An event keeps the active compilation unless it is the swap of a call that finds the one it
  expects and puts a new one in the place. -/
  chain : ∀ before event, before ++ [event] <+: events →
    activeAfter compilers first (before ++ [event]) = activeAfter compilers first before ∨
      ∃ call expected next, Replaces compilers first before event call expected next ∧
        (run compilers first events).calls call = .finished expected (.replaced next)
  /-- Every call that says so has replaced the compilation it has started from. -/
  replaced : ∀ call expected next,
    (run compilers first events).calls call = .finished expected (.replaced next) →
      ∃ before event, before ++ [event] <+: events ∧
        Replaces compilers first before event call expected next
  /-- Of the calls that have started from one compilation one at the most replaces it. -/
  once : ∀ call other expected again next following,
    (run compilers first events).calls call = .finished expected (.replaced next) →
    (run compilers first events).calls other = .finished again (.replaced following) →
    expected.isSame again = true → call = other
  /-- A compilation that has been replaced does not become active again. -/
  noReturn : ∀ early middle, early <+: middle → middle <+: events →
    (activeAfter compilers first early).isSame (activeAfter compilers first events) = true →
      activeAfter compilers first middle = activeAfter compilers first events
  /-- No event of a call with another answer changes the active compilation. -/
  unchanged : ∀ call expected answer,
    (run compilers first events).calls call = .finished expected answer →
    (∀ next, answer ≠ .replaced next) →
      ∀ before event, before ++ [event] <+: events → event.call? = some call →
        activeAfter compilers first (before ++ [event]) = activeAfter compilers first before

/-- While a loaded shader is edited, brought news of and swapped directly, in any order, its active
compilation is always the result of a complete compile of the root, and only calls that find the
compilation they have started from replace it, each by a new one. -/
theorem isDisciplined_of_load {compiler : Compiler σ} {root : String} {sources : Numbering σ}
    {shader : LiveShader} (hload : (load compiler root).outcomeFrom sources = .ok shader)
    (compilers : Nat → Compiler σ) (events : List (Event σ)) :
    shader.root = .rooted root ∧
      (compiler.compile root).outcomeFrom sources.inner = .ok shader.active.value ∧
      IsDisciplined compilers (ofLoaded ((load compiler root).stateFrom sources) shader)
        events := by
  obtain ⟨compilation, hcompile, rfl, hstate⟩ := load_eq_ok hload
  refine ⟨rfl, hcompile, ?_⟩
  rw [hstate]
  have hfirst : IsUnstarted (ofLoaded ⟨(compiler.compile root).stateFrom sources.inner,
      sources.next + 1⟩ ⟨.rooted root, ⟨sources.next, compilation⟩⟩) :=
    ⟨Nat.lt_succ_self _, fun _ => rfl⟩
  refine ⟨isCompiled_active hfirst events, fun call expected answer hfinished => ?_,
    fun before event hbefore => ?_, fun _ _ _ => exists_replaces hfirst events,
    fun _ _ _ _ _ _ => replaced_once hfirst, fun _ _ => activeAfter_between hfirst events,
    fun _ _ _ hfinished hanswer _ _ => activeAfter_of_finished hfirst hfinished hanswer⟩
  · exact startsFrom_of_expected hfirst events (hfinished ▸ rfl)
  · rcases activeAfter_concat hfirst before event with
      hkept | ⟨call, expected, next, hreplaces, hreplaced⟩
    · exact .inl hkept
    · exact .inr ⟨call, expected, next, hreplaces, calls_of_finished hbefore hreplaced⟩

/-- Two calls start from one compilation. The first one to swap replaces it, the other one drops
what it has made before. -/
theorem isDisciplined_with_two_calls :
    let compiler : Compiler MemorySources := ⟨MemorySources.provider, .standard⟩
    let file : SourcePath := ⟨"/s.glsl"⟩
    let sources : Numbering MemorySources :=
      ⟨.ofFiles [(file, MemorySources.sampleShader "int v1;\n")], 0⟩
    let events : List (Event MemorySources) :=
      [.edit (.ofFiles [(file, MemorySources.sampleShader "int v2;\n")]), .start 0 [file],
        .start 1 [file], .build 1, .build 0, .swap 0, .swap 1]
    ∃ shader : LiveShader,
      let first := ofLoaded ((load compiler "/s.glsl").stateFrom sources) shader
      let last := run (fun _ => compiler) first events
      (load compiler "/s.glsl").outcomeFrom sources = .ok shader ∧
      last.calls 0 = .finished shader.active (.replaced last.shader.active) ∧
      last.calls 1 = .finished shader.active .superseded ∧
      IsDisciplined (fun _ => compiler) first events := by
  intro compiler file sources events
  have hloads : ((load compiler "/s.glsl").outcomeFrom sources).toOption.any (fun shader =>
      let first := ofLoaded ((load compiler "/s.glsl").stateFrom sources) shader
      let last := run (fun _ => compiler) first events
      last.calls 0 = .finished shader.active (.replaced last.shader.active) &&
        last.calls 1 = .finished shader.active .superseded) = true := by decide +kernel
  obtain ⟨shader, hload, hcalls⟩ := exists_of_toOption_any hloads
  obtain ⟨hreplaced, hsuperseded⟩ := Bool.and_eq_true_iff.mp hcalls
  exact ⟨shader, hload, of_decide_eq_true hreplaced, of_decide_eq_true hsuperseded,
    (isDisciplined_of_load hload (fun _ => compiler) events).2.2⟩

end Runs

end Contest

end ShaderAssembly.LiveShader
