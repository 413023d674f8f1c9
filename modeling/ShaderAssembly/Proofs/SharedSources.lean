import Mathlib.Data.List.Induction
import Mathlib.Logic.Function.Iterate
import ShaderAssembly.Proofs.FreshNumbers
import ShaderAssembly.Proofs.UnchangingSources
import ShaderAssembly.Sources.Cached

/-!
# Kept files among edits

Kept files in front of files in memory are shared by any number of callers. A call asks for the
revision of its file, looks among the kept files, reads on a miss and keeps what it has read.
Between these steps there may be steps of other calls, writes, removals and orders to forget a
file. Even a write has two steps: it takes the next revision and stores the text later, so a file
may end up with an older revision than one it had before.

So a kept file may pair an older revision with a newer text, and a slow caller may put an older
file in the place of a newer one. Still a revision belongs to one write: once it is gone from a
file it does not come back. Hence whatever a call answers was so at a moment of the call.
-/

namespace ShaderAssembly

namespace MemorySources

/-- Takes the next revision. -/
def number (sources : MemorySources) : MemorySources :=
  { sources with writes := sources.writes + 1 }

/-- Stores a file with a revision. -/
def store (sources : MemorySources) (path : SourcePath) (text : String) (revision : Nat) :
    MemorySources := { sources with files := sources.files.insert path ⟨text, revision⟩ }

/-- A write takes the next revision and stores the file with it. -/
theorem write_eq_store (sources : MemorySources) (path : SourcePath) (text : String) :
    sources.write path text = sources.number.store path text (sources.writes + 1) := rfl

end MemorySources

namespace CachedSources

variable {σ : Type}

/-- How far a call for a file has come. -/
inductive Fetch where
  /-- It has not started. -/
  | waiting
  /-- It has started. -/
  | started (asked : SourcePath)
  /-- It knows the revision of the file. -/
  | dated (asked : SourcePath) (revision : Nat)
  /-- It has not found the file with that revision among the kept ones. -/
  | missed (asked : SourcePath) (revision : Nat)
  /-- It has read the file. -/
  | fetched (file : KeptFile)
  /-- It has given its answer. -/
  | finished (answer : Except ReadFailure KeptFile)
  deriving DecidableEq

namespace Fetch

/-- The answer of a call, once it has given it. -/
def answer? : Fetch → Option (Except ReadFailure KeptFile)
  | .finished answer => some answer
  | .waiting | .started _ | .dated .. | .missed .. | .fetched _ => none

/-- The file and the revision that a call knows, before it has read the file. -/
def dated? : Fetch → Option (SourcePath × Nat)
  | .dated asked revision | .missed asked revision => some (.rooted asked.text, revision)
  | .waiting | .started _ | .fetched _ | .finished _ => none

/-- One step of a call, and what it does to the kept files and the other provider. -/
def advance (provider : Provider σ) : Fetch × CachedSources σ → Fetch × CachedSources σ
  | (.started asked, cached) =>
    let query := provider.revision (.rooted asked.text)
    (match query.outcomeFrom cached.inner with
      | .ok revision => .dated asked revision
      | .error failure => .finished (.error failure),
      { cached with inner := query.stateFrom cached.inner })
  | (.dated asked revision, cached) =>
    (match (cached.files.get? (.rooted asked.text)).filter (·.revision = revision) with
      | some file => .finished (.ok file)
      | none => .missed asked revision, cached)
  | (.missed asked revision, cached) =>
    let read := provider.read (.rooted asked.text)
    (match read.outcomeFrom cached.inner with
      | .ok text => .fetched ⟨.rooted asked.text, text, revision⟩
      | .error failure => .finished (.error failure),
      { cached with inner := read.stateFrom cached.inner })
  | (.fetched file, cached) =>
    (.finished (.ok file), (keep file : Action _ ReadFailure Unit).stateFrom cached)
  | (.waiting, cached) => (.waiting, cached)
  | (.finished answer, cached) => (.finished answer, cached)

section Undisturbed

variable (provider : Provider σ) (cached : CachedSources σ) (asked : SourcePath)

/-- Reading a file and keeping it takes two steps. -/
theorem advance_missed (revision : Nat) :
    advance provider (advance provider (.missed asked revision, cached)) =
      (.finished ((load provider (.rooted asked.text) revision).outcomeFrom cached),
        (load provider (.rooted asked.text) revision).stateFrom cached) := by
  have hread : ∀ outcome, (provider.read (.rooted asked.text)).outcomeFrom cached.inner = outcome →
      (onInner (provider.read (.rooted asked.text))).outcomeFrom cached = outcome := fun _ h => h
  unfold load
  rw [Action.outcomeFrom_bind_of_ok (Action.outcomeFrom_record ..),
    Action.stateFrom_bind_of_ok (Action.outcomeFrom_record ..), Action.stateFrom_record]
  cases houtcome : (provider.read (.rooted asked.text)).outcomeFrom cached.inner with
  | error failure =>
    rw [Action.outcomeFrom_bind_of_error (hread _ houtcome),
      Action.stateFrom_bind_of_error (hread _ houtcome)]
    simp only [advance, houtcome]
    rfl
  | ok text =>
    rw [Action.outcomeFrom_bind_of_ok (hread _ houtcome),
      Action.stateFrom_bind_of_ok (hread _ houtcome)]
    simp only [advance, houtcome]
    rfl

/-- Four steps of a call, one after the other, are the whole call. -/
theorem advance_started :
    (advance provider)^[4] (.started asked, cached) =
      (.finished ((file provider asked).outcomeFrom cached),
        (file provider asked).stateFrom cached) := by
  have hquery : ∀ outcome,
      (provider.revision (.rooted asked.text)).outcomeFrom cached.inner = outcome →
      (onInner (provider.revision (.rooted asked.text))).outcomeFrom cached = outcome :=
    fun _ h => h
  simp only [Function.iterate_succ, Function.iterate_zero, Function.comp_apply, id_eq]
  unfold file
  cases houtcome : (provider.revision (.rooted asked.text)).outcomeFrom cached.inner with
  | error failure =>
    rw [Action.outcomeFrom_bind_of_error (hquery _ houtcome),
      Action.stateFrom_bind_of_error (hquery _ houtcome)]
    simp only [advance, houtcome]
    rfl
  | ok revision =>
    rw [Action.outcomeFrom_bind_of_ok (hquery _ houtcome),
      Action.stateFrom_bind_of_ok (hquery _ houtcome),
      Action.outcomeFrom_bind_of_ok (Action.outcomeFrom_get _),
      Action.stateFrom_bind_of_ok (Action.outcomeFrom_get _), Action.stateFrom_get]
    have hdated : advance provider (.started asked, cached) =
        (.dated asked revision,
          (onInner (provider.revision (.rooted asked.text))).stateFrom cached) := by
      simp only [advance, houtcome]
      rfl
    rw [hdated]
    generalize (onInner (provider.revision (.rooted asked.text))).stateFrom cached = dated
    cases hkept : (dated.files.get? (.rooted asked.text)).filter (·.revision = revision) with
    | some file =>
      simp only [advance, hkept]
      rfl
    | none =>
      have hmissed : advance provider (.dated asked revision, dated) =
          (.missed asked revision, dated) := by simp only [advance, hkept]
      rw [hmissed, advance_missed]

end Undisturbed

end Fetch

/-- Kept files in front of files in memory, among calls and writes. -/
structure Sharing where
  /-- The kept files, and the files in memory. -/
  cached : CachedSources MemorySources
  /-- How far the calls have come. -/
  calls : Nat → Fetch
  /-- The revisions that writes have taken and not stored yet. -/
  numbers : Nat → Option Nat

namespace Sharing

/-- What can happen. -/
inductive Event where
  /-- A write takes the next revision. -/
  | number (write : Nat)
  /-- A write that has taken a revision stores its text. -/
  | store (write : Nat) (path text : String)
  /-- A file is removed. -/
  | remove (path : String)
  /-- A kept file is forgotten. -/
  | forget (path : SourcePath)
  /-- A call for a file starts. -/
  | start (call : Nat) (asked : SourcePath)
  /-- A call does its next step. -/
  | advance (call : Nat)
  deriving DecidableEq

/-- Whether an event changes what stands in a file. -/
def Event.isEdit : Event → Bool
  | .store .. | .remove _ => true
  | .number _ | .forget _ | .start .. | .advance _ => false

/-- The call that an event belongs to. -/
def Event.call? : Event → Option Nat
  | .start call _ | .advance call => some call
  | .number _ | .store .. | .remove _ | .forget _ => none

/-- The write that takes a revision by an event. -/
def Event.taker? : Event → Option Nat
  | .number write => some write
  | .store .. | .remove _ | .forget _ | .start .. | .advance _ => none

/-- No files, and no calls or writes. -/
def empty : Sharing := ⟨.ofInner .empty, fun _ => .waiting, fun _ => none⟩

/-- The file in memory at a path. -/
def held? (state : Sharing) (path : SourcePath) : Option MemoryFile :=
  state.cached.inner.files.get? path

/-- Changes the files in memory. -/
def withInner (state : Sharing) (inner : MemorySources) : Sharing :=
  { state with cached := { state.cached with inner } }

/-- Notes how far a call has come. -/
def set (state : Sharing) (call : Nat) (fetch : Fetch) : Sharing :=
  { state with calls := Function.update state.calls call fetch }

/-- How far a call has come is what has been noted. -/
@[simp]
theorem calls_set_self (state : Sharing) (call : Nat) (fetch : Fetch) :
    (state.set call fetch).calls call = fetch := Function.update_self ..

/-- What an event does. An event out of turn does nothing. -/
def step (state : Sharing) : Event → Sharing
  | .number write =>
    match state.numbers write with
    | none =>
      { state.withInner state.cached.inner.number with
        numbers := Function.update state.numbers write (some (state.cached.inner.writes + 1)) }
    | some _ => state
  | .store write path text =>
    match state.numbers write with
    | some revision =>
      { state.withInner (state.cached.inner.store (.rooted path) text revision) with
        numbers := Function.update state.numbers write none }
    | none => state
  | .remove path => state.withInner (state.cached.inner.remove (.rooted path))
  | .forget path => { state with cached := state.cached.forget path }
  | .start call asked =>
    match state.calls call with
    | .waiting => state.set call (.started asked)
    | _ => state
  | .advance call =>
    let next := Fetch.advance MemorySources.provider (state.calls call, state.cached)
    { state.set call next.1 with cached := next.2 }

/-- What events in a row lead to. -/
def run (events : List Event) : Sharing := events.foldl step empty

/-- One more event is one more step. -/
theorem run_concat (events : List Event) (event : Event) :
    run (events ++ [event]) = step (run events) event := by
  rw [run, List.foldl_append]
  rfl

/-! ### What a step can do -/

/-- Whether nothing but reads and writes decides what the files in memory give. -/
def IsPlain (state : Sharing) : Prop :=
  state.cached.inner.denied = [] ∧ state.cached.inner.scheduled = []

/-- What a step can do. -/
inductive Moves (state : Sharing) : Event → Sharing → Prop where
  /-- Nothing happens. -/
  | stay {event : Event} : Moves state event state
  /-- A write takes the next revision. -/
  | number {write : Nat} :
      Moves state (.number write)
        { state.withInner state.cached.inner.number with
          numbers := Function.update state.numbers write (some (state.cached.inner.writes + 1)) }
  /-- A write stores its text with the revision it has taken. -/
  | store {write revision : Nat} {path text : String}
      (htaken : state.numbers write = some revision) :
      Moves state (.store write path text)
        { state.withInner (state.cached.inner.store (.rooted path) text revision) with
          numbers := Function.update state.numbers write none }
  /-- A file is removed. -/
  | remove {path : String} :
      Moves state (.remove path) (state.withInner (state.cached.inner.remove (.rooted path)))
  /-- A kept file is forgotten. -/
  | forget {path : SourcePath} :
      Moves state (.forget path) { state with cached := state.cached.forget path }
  /-- A call starts. -/
  | start {call : Nat} {asked : SourcePath} (hwaiting : state.calls call = .waiting) :
      Moves state (.start call asked) (state.set call (.started asked))
  /-- A call gets to know the revision of its file. -/
  | date {call : Nat} {asked : SourcePath} {held : MemoryFile}
      (hstarted : state.calls call = .started asked)
      (hheld : state.held? (.rooted asked.text) = some held) :
      Moves state (.advance call) (state.set call (.dated asked held.revision))
  /-- A call finds that there is no file. -/
  | missing {call reads : Nat} {asked : SourcePath}
      (hcall : state.calls call = .started asked ∨
        ∃ revision, state.calls call = .missed asked revision)
      (hnone : state.held? (.rooted asked.text) = none) :
      Moves state (.advance call)
        ((state.withInner { state.cached.inner with reads }).set call
          (.finished (.error (.missing (.rooted asked.text)))))
  /-- A call finds its file among the kept ones. -/
  | hit {call : Nat} {asked : SourcePath} {file : KeptFile}
      (hdated : state.calls call = .dated asked file.revision)
      (hkept : state.cached.files.get? (.rooted asked.text) = some file) :
      Moves state (.advance call) (state.set call (.finished (.ok file)))
  /-- A call does not find its file among the kept ones. -/
  | miss {call revision : Nat} {asked : SourcePath}
      (hdated : state.calls call = .dated asked revision) :
      Moves state (.advance call) (state.set call (.missed asked revision))
  /-- A call reads its file. -/
  | read {call revision reads : Nat} {asked : SourcePath} {held : MemoryFile}
      (hmissed : state.calls call = .missed asked revision)
      (hheld : state.held? (.rooted asked.text) = some held) :
      Moves state (.advance call)
        ((state.withInner { state.cached.inner with reads }).set call
          (.fetched ⟨.rooted asked.text, held.text, revision⟩))
  /-- A call keeps the file it has read. -/
  | keep {call : Nat} {file : KeptFile} (hfetched : state.calls call = .fetched file) :
      Moves state (.advance call)
        ({ state with cached := ⟨state.cached.files.insert file.path file, state.cached.inner⟩ }.set
          call (.finished (.ok file)))

/-- Asking for the revision of a file finds the file in memory or fails. -/
theorem revision_eq (sources : MemorySources) (asked : SourcePath) :
    (MemorySources.provider.revision (.rooted asked.text)).outcomeFrom sources =
        (match sources.files.get? (.rooted asked.text) with
        | some held => .ok held.revision
        | none => .error (.missing (.rooted asked.text))) ∧
      (MemorySources.provider.revision (.rooted asked.text)).stateFrom sources = sources := by
  have hpath := SourcePath.rooted_text (SourcePath.isRooted_rooted asked.text)
  simp only [MemorySources.provider, MemorySources.file, hpath, Action.outcomeFrom_bind_pure,
    Action.stateFrom_bind_pure]
  rw [Action.outcomeFrom_bind_of_ok (Action.outcomeFrom_get _),
    Action.stateFrom_bind_of_ok (Action.outcomeFrom_get _), Action.stateFrom_get]
  cases sources.files.get? (.rooted asked.text) <;> exact ⟨rfl, rfl⟩

/-- Reading a file finds it in memory or fails. -/
theorem read_eq {sources : MemorySources} (hdenied : sources.denied = [])
    (hscheduled : sources.scheduled = []) (asked : SourcePath) :
    (MemorySources.provider.read (.rooted asked.text)).outcomeFrom sources =
        (match sources.files.get? (.rooted asked.text) with
        | some held => .ok held.text
        | none => .error (.missing (.rooted asked.text))) ∧
      (MemorySources.provider.read (.rooted asked.text)).stateFrom sources =
        { sources with reads := sources.reads + 1 } := by
  have hpath := SourcePath.rooted_text (SourcePath.isRooted_rooted asked.text)
  obtain ⟨houtcome, hstate⟩ := MemorySources.read_of_unscheduled hscheduled (.rooted asked.text)
  refine ⟨houtcome.trans ?_, hstate⟩
  rw [MemorySources.contents, hpath, hdenied]
  refine (if_neg List.not_mem_nil).trans ?_
  cases sources.files.get? (.rooted asked.text) <;> rfl

variable {state after : Sharing} {event : Event} {call : Nat}

/-- A call that has nothing to do changes nothing. -/
theorem set_self (state : Sharing) (call : Nat) : state.set call (state.calls call) = state := by
  rw [set, Function.update_eq_self]

/-- The next step of a call does what steps can do. -/
theorem moves_advance (h : state.IsPlain) (call : Nat) :
    Moves state (.advance call) (step state (.advance call)) := by
  simp only [step]
  cases hcall : state.calls call with
  | waiting =>
    simp only [Fetch.advance]
    rw [← hcall, set_self]
    exact .stay
  | finished answer =>
    simp only [Fetch.advance]
    rw [← hcall, set_self]
    exact .stay
  | started asked =>
    obtain ⟨houtcome, hstate⟩ := revision_eq state.cached.inner asked
    simp only [Fetch.advance, houtcome, hstate]
    cases hheld : state.cached.inner.files.get? (.rooted asked.text) with
    | some held => exact .date hcall hheld
    | none => exact .missing (.inl hcall) hheld
  | dated asked revision =>
    simp only [Fetch.advance]
    cases hkept : (state.cached.files.get? (.rooted asked.text)).filter (·.revision = revision) with
    | some file =>
      obtain ⟨hfile, hrevision⟩ := Option.filter_eq_some_iff.mp hkept
      obtain rfl := of_decide_eq_true hrevision
      exact .hit hcall hfile
    | none => exact .miss hcall
  | missed asked revision =>
    obtain ⟨houtcome, hstate⟩ := read_eq h.1 h.2 asked
    simp only [Fetch.advance, houtcome, hstate]
    cases hheld : state.cached.inner.files.get? (.rooted asked.text) with
    | some held => exact .read hcall hheld
    | none => exact .missing (.inr ⟨revision, hcall⟩) hheld
  | fetched file => exact .keep hcall

/-- A step does what steps can do. -/
theorem moves_step (h : state.IsPlain) (event : Event) : Moves state event (step state event) := by
  cases event with
  | number write =>
    simp only [step]
    split
    · exact .number
    · exact .stay
  | store write path text =>
    simp only [step]
    split
    · next revision htaken => exact .store htaken
    · exact .stay
  | remove path => exact .remove
  | forget path => exact .forget
  | start call asked =>
    simp only [step]
    split
    · next hwaiting => exact .start hwaiting
    · exact .stay
  | advance call => exact moves_advance h call

/-! ### What a move changes -/

section Changes

variable (h : Moves state event after)
include h

/-- Nothing but reads and writes keeps deciding what the files in memory give. -/
theorem Moves.isPlain (hplain : state.IsPlain) : after.IsPlain := by
  cases h <;> exact hplain

/-- Revisions are never taken back. -/
theorem Moves.writes_le : state.cached.inner.writes ≤ after.cached.inner.writes := by
  cases h with
  | number => exact Nat.le_succ _
  | _ => exact Nat.le_refl _

/-- A file stays as it is, or it is removed, or a write stores it with the revision that it has
taken. -/
theorem Moves.held_cases (path : SourcePath) :
    after.held? path = state.held? path ∨ event.isEdit = true ∧ (after.held? path = none ∨
      ∃ write held, after.held? path = some held ∧ state.numbers write = some held.revision ∧
        after.numbers write = none) := by
  cases h with
  | @store write revision target text htaken =>
    by_cases hpath : path = .rooted target
    · subst hpath
      exact .inr ⟨rfl, .inr ⟨write, ⟨text, revision⟩, OrderedMap.get?_insert_self .., htaken,
        Function.update_self ..⟩⟩
    · exact .inl (OrderedMap.get?_insert_of_ne hpath)
  | @remove target =>
    by_cases hpath : path = .rooted target
    · subst hpath
      exact .inr ⟨rfl, .inl (OrderedMap.get?_erase_self ..)⟩
    · exact .inl (OrderedMap.get?_erase_of_ne hpath)
  | _ => exact .inl rfl

/-- A write that has a revision had it before, or has just taken the next one. -/
theorem Moves.numbers_cases {write revision : Nat}
    (htaken : after.numbers write = some revision) :
    state.numbers write = some revision ∨ event.taker? = some write ∧
      revision = state.cached.inner.writes + 1 ∧
        after.cached.inner.writes = state.cached.inner.writes + 1 := by
  cases h with
  | @number other =>
    by_cases hwrite : write = other
    · subst hwrite
      dsimp only at htaken
      rw [Function.update_self] at htaken
      exact .inr ⟨rfl, (Option.some.inj htaken).symm, rfl⟩
    · exact .inl ((Function.update_of_ne hwrite _ _).symm.trans htaken)
  | @store other =>
    by_cases hwrite : write = other
    · subst hwrite
      dsimp only at htaken
      rw [Function.update_self] at htaken
      cases htaken
    · exact .inl ((Function.update_of_ne hwrite _ _).symm.trans htaken)
  | _ => exact .inl htaken

/-- Calls that the event does not belong to stay where they are. -/
theorem Moves.calls_eq (hother : event.call? ≠ some call) :
    after.calls call = state.calls call := by
  cases h with
  | stay | number | store | remove | forget => rfl
  | start | date | missing | hit | miss | read | keep =>
    exact Function.update_of_ne (fun heq => hother (congrArg some heq.symm)) _ _

/-- An answer stays as it is. -/
theorem Moves.finished_eq {answer : Except ReadFailure KeptFile}
    (hfinished : state.calls call = .finished answer) : after.calls call = .finished answer := by
  by_cases hcall : event.call? = some call
  · cases h with
    | stay | number | store | remove | forget => exact hfinished
    | start hother | date hother | hit hother | miss hother | read hother | keep hother =>
      cases hcall
      exact absurd (hother.symm.trans hfinished) nofun
    | missing hother =>
      cases hcall
      rcases hother with hother | ⟨revision, hother⟩ <;>
        exact absurd (hother.symm.trans hfinished) nofun
  · rw [h.calls_eq hcall, hfinished]

/-- A call knows a revision because it did before, or because its file has it now. -/
theorem Moves.dated_cases {path : SourcePath} {revision : Nat}
    (hdated : (after.calls call).dated? = some (path, revision)) :
    (state.calls call).dated? = some (path, revision) ∨
      ∃ held, state.held? path = some held ∧ held.revision = revision := by
  by_cases hcall : event.call? = some call
  · cases h with
    | stay | number | store | remove | forget => exact .inl hdated
    | start | missing | hit | read | keep =>
      cases hcall
      simp [Fetch.dated?] at hdated
    | date _ hheld =>
      cases hcall
      simp only [calls_set_self, Fetch.dated?, Option.some.injEq, Prod.mk.injEq]
        at hdated
      obtain ⟨rfl, rfl⟩ := hdated
      exact .inr ⟨_, hheld, rfl⟩
    | miss hbefore =>
      cases hcall
      rw [calls_set_self] at hdated
      rw [hbefore]
      exact .inl hdated
  · rw [h.calls_eq hcall] at hdated
    exact .inl hdated

/-- A call has a file because it had it before, or because it reads it now with the revision it
knows. -/
theorem Moves.fetched_cases {file : KeptFile} (hfetched : after.calls call = .fetched file) :
    state.calls call = .fetched file ∨
      (state.calls call).dated? = some (file.path, file.revision) ∧
        ∃ held, state.held? file.path = some held ∧ held.text = file.text := by
  by_cases hcall : event.call? = some call
  · cases h with
    | stay | number | store | remove | forget => exact .inl hfetched
    | start | date | missing | hit | miss | keep =>
      cases hcall
      simp at hfetched
    | read hmissed hheld =>
      cases hcall
      simp only [calls_set_self, Fetch.fetched.injEq] at hfetched
      subst hfetched
      exact .inr ⟨congrArg Fetch.dated? hmissed, _, hheld, rfl⟩
  · rw [h.calls_eq hcall] at hfetched
    exact .inl hfetched

/-- A file is kept because it was so before, or because a call that has read it keeps it now. -/
theorem Moves.kept_cases {path : SourcePath} {file : KeptFile}
    (hkept : after.cached.files.get? path = some file) :
    state.cached.files.get? path = some file ∨
      file.path = path ∧ ∃ call, state.calls call = .fetched file := by
  cases h with
  | @forget target =>
    by_cases hpath : path = .rooted target.text
    · subst hpath
      have hnone := OrderedMap.get?_erase_self state.cached.files (.rooted target.text)
      cases hnone.symm.trans hkept
    · exact .inl (OrderedMap.get?_erase_of_ne hpath ▸ hkept)
  | @keep call new hfetched =>
    by_cases hpath : path = new.path
    · subst hpath
      have hnew := OrderedMap.get?_insert_self state.cached.files new.path new
      obtain rfl := Option.some.inj (hnew.symm.trans hkept)
      exact .inr ⟨rfl, call, hfetched⟩
    · exact .inl (OrderedMap.get?_insert_of_ne hpath ▸ hkept)
  | _ => exact .inl hkept

end Changes

/-- Nothing but reads and writes decides what the files in memory give. -/
theorem isPlain_run (events : List Event) : (run events).IsPlain := by
  induction events using List.reverseRecOn with
  | nil => exact ⟨rfl, rfl⟩
  | append_singleton events event ih =>
    rw [run_concat]
    exact (moves_step ih event).isPlain ih

/-- One more event is one more move. -/
theorem moves_run (events : List Event) (event : Event) :
    Moves (run events) event (run (events ++ [event])) :=
  run_concat events event ▸ moves_step (isPlain_run events) event

section Runs

variable {events : List Event} {path : SourcePath}

/-! ### A revision belongs to one file -/

/-- The file in memory at a path after some events. -/
def heldAfter (events : List Event) (path : SourcePath) : Option MemoryFile :=
  (run events).held? path

/-- Whether a file has had a revision. -/
def WasStored (events : List Event) (revision : Nat) : Prop :=
  ∃ earlier path held, earlier <+: events ∧ heldAfter earlier path = some held ∧
    held.revision = revision

/-- A revision that a file gets is given away by a write. -/
theorem wasStored_concat {revision : Nat} (h : WasStored (events ++ [event]) revision) :
    WasStored events revision ∨ ∃ write, (run events).numbers write = some revision ∧
      (run (events ++ [event])).numbers write = none := by
  obtain ⟨earlier, path, held, hearlier, hheld, rfl⟩ := h
  rcases List.prefix_concat_iff.mp hearlier with rfl | hearlier
  · rcases (moves_run events event).held_cases path with
      hsame | ⟨-, hnone | ⟨write, new, hnew, htaken, hgone⟩⟩
    · exact .inl ⟨events, path, held, List.prefix_rfl, hsame.symm.trans hheld, rfl⟩
    · cases hnone.symm.trans hheld
    · obtain rfl := Option.some.inj (hnew.symm.trans hheld)
      exact .inr ⟨write, htaken, hgone⟩
  · exact .inl ⟨earlier, path, held, hearlier, hheld, rfl⟩

/-- Revisions that writes have taken and not stored yet have been in no file. -/
theorem freshNumbers_run (events : List Event) :
    FreshNumbers ((run events).cached.inner.writes + 1) (WasStored events)
      (run events).numbers := by
  induction events using List.reverseRecOn with
  | nil =>
    refine .of_unheld ?_ fun _ => rfl
    rintro _ ⟨earlier, path, held, hearlier, hheld, rfl⟩
    rw [List.prefix_nil.mp hearlier] at hheld
    cases hheld
  | append_singleton events event ih =>
    have hmoves := moves_run events event
    refine ih.step event.taker? (Nat.succ_le_succ hmoves.writes_le)
      (fun _ => wasStored_concat) fun write revision htaken => ?_
    rcases hmoves.numbers_cases htaken with hold | ⟨htaker, hrevision, hwrites⟩
    · exact .inl hold
    · rw [hwrites]
      exact .inr ⟨htaker, hrevision, Nat.lt_succ_self _⟩

/-- A file that has the same revision at two moments is the same at all moments between. -/
theorem heldAfter_between {early middle : List Event} (events : List Event)
    (hearly : early <+: middle) (hmiddle : middle <+: events) {file later : MemoryFile}
    (hfile : heldAfter early path = some file) (hlater : heldAfter events path = some later)
    (hrevision : file.revision = later.revision) :
    heldAfter middle path = some later := by
  induction events using List.reverseRecOn with
  | nil => rwa [List.prefix_nil.mp hmiddle]
  | append_singleton events event ih =>
    rcases List.prefix_concat_iff.mp hmiddle with rfl | hmiddle
    · exact hlater
    · rcases (moves_run events event).held_cases path with
        hsame | ⟨-, hnone | ⟨write, new, hnew, htaken, -⟩⟩
      · exact ih hmiddle (hsame.symm.trans hlater)
      · cases hnone.symm.trans hlater
      · obtain rfl := Option.some.inj (hnew.symm.trans hlater)
        exact absurd ⟨early, path, file, hearly.trans hmiddle, hfile, hrevision⟩
          ((freshNumbers_run events).unseen write _ htaken)

/-! ### Where kept files come from -/

/-- Whether a file had a revision at some moment. -/
def HadRevision (events : List Event) (path : SourcePath) (revision : Nat) : Prop :=
  ∃ moment held, moment <+: events ∧ heldAfter moment path = some held ∧ held.revision = revision

/-- Whether a file had the revision that has been noted for it, and later on the text. -/
def WasRead (events : List Event) (file : KeptFile) : Prop :=
  ∃ moment held, moment <+: events ∧ HadRevision moment file.path file.revision ∧
    heldAfter moment file.path = some held ∧ held.text = file.text

/-- What a file had before some events it had before more of them. -/
theorem HadRevision.concat {revision : Nat} (h : HadRevision events path revision)
    (event : Event) : HadRevision (events ++ [event]) path revision := by
  obtain ⟨moment, held, hmoment, hheld⟩ := h
  exact ⟨moment, held, hmoment.trans (List.prefix_append _ _), hheld⟩

/-- What was read before some events was read before more of them. -/
theorem WasRead.concat {file : KeptFile} (h : WasRead events file) (event : Event) :
    WasRead (events ++ [event]) file := by
  obtain ⟨moment, held, hmoment, hread⟩ := h
  exact ⟨moment, held, hmoment.trans (List.prefix_append _ _), hread⟩

/-- Whether revisions that calls know, files that calls have read and files that are kept are
right about some moment. -/
structure KeepsRecord (events : List Event) : Prop where
  /-- A revision that a call knows is one that the file has had. -/
  dated : ∀ call path revision,
    ((run events).calls call).dated? = some (path, revision) → HadRevision events path revision
  /-- A file that a call has read was read. -/
  fetched : ∀ call file, (run events).calls call = .fetched file → WasRead events file
  /-- A file that is kept is kept under its path and was read. -/
  kept : ∀ path file, (run events).cached.files.get? path = some file →
    file.path = path ∧ WasRead events file

/-- The record is right at all times. -/
theorem keepsRecord_run (events : List Event) : KeepsRecord events := by
  induction events using List.reverseRecOn with
  | nil => exact ⟨nofun, nofun, nofun⟩
  | append_singleton events event ih =>
    have hmoves := moves_run events event
    refine ⟨fun call path revision hdated => ?_, fun call file hfetched => ?_,
      fun path file hkept => ?_⟩
    · rcases hmoves.dated_cases hdated with hold | ⟨held, hheld, hrevision⟩
      · exact (ih.dated call path revision hold).concat event
      · exact ⟨events, held, List.prefix_append _ _, hheld, hrevision⟩
    · rcases hmoves.fetched_cases hfetched with hold | ⟨hdated, held, hheld, htext⟩
      · exact (ih.fetched call file hold).concat event
      · exact ⟨events, held, List.prefix_append _ _, ih.dated call _ _ hdated, hheld, htext⟩
    · rcases hmoves.kept_cases hkept with hold | ⟨hpath, call, hfetched⟩
      · exact (ih.kept path file hold).imp id fun hread => hread.concat event
      · exact ⟨hpath, (ih.fetched call file hfetched).concat event⟩

/-! ### Answers -/

/-- Whether an answer to a call for a file is right about the files in memory: it has the text
that stands there, or nothing does. -/
def Says (state : Sharing) (path : SourcePath) : Except ReadFailure KeptFile → Prop
  | .ok file => file.path = path ∧ ∃ held, state.held? path = some held ∧ held.text = file.text
  | .error failure => failure = .missing path ∧ state.held? path = none

/-- Whether a moment lies between the start of a call and its answer. -/
structure IsDuring (call : Nat) (start events moment : List Event) : Prop where
  /-- The call has started. -/
  started : start <+: moment
  /-- The moment has come. -/
  past : moment <+: events
  /-- The call has not given its answer. -/
  unanswered : ((run moment).calls call).answer? = none

section During

variable {start : List Event} {asked : SourcePath}

/-- A moment of a call stays one. -/
theorem IsDuring.concat {moment : List Event} (h : IsDuring call start events moment)
    (event : Event) : IsDuring call start (events ++ [event]) moment :=
  ⟨h.started, h.past.trans (List.prefix_append _ _), h.unanswered⟩

/-- A call that has not given its answer had not given it before. -/
theorem unanswered_of_prefix {moment : List Event} (hmoment : moment <+: events)
    (h : ((run events).calls call).answer? = none) :
    ((run moment).calls call).answer? = none := by
  obtain ⟨rest, rfl⟩ := hmoment
  induction rest using List.reverseRecOn with
  | nil => rwa [List.append_nil] at h
  | append_singleton rest event ih =>
    rw [← List.append_assoc] at h
    apply ih
    cases hcall : (run (moment ++ rest)).calls call with
    | finished answer =>
      rw [(moves_run _ event).finished_eq hcall] at h
      cases h
    | _ => rfl

/-- A kept file with the revision that its file had during a call has a text that its file had
during the call. -/
theorem says_of_kept {moment : List Event} {held : MemoryFile} {file : KeptFile}
    (hmoment : IsDuring call start events moment)
    (hunanswered : ((run events).calls call).answer? = none)
    (hheld : heldAfter moment path = some held) (hrevision : held.revision = file.revision)
    (hkept : (run events).cached.files.get? path = some file) :
    ∃ moment, IsDuring call start events moment ∧ (run moment).Says path (.ok file) := by
  obtain ⟨rfl, reading, read, hreading, ⟨early, dated, hearly, hdated, hsame⟩, hread, htext⟩ :=
    (keepsRecord_run events).kept path file hkept
  -- the file was read before the call has asked for its revision, or since
  rcases List.prefix_or_prefix_of_prefix hreading hmoment.past with horder | horder
  · have hbetween := heldAfter_between moment hearly horder hdated hheld
      (hsame.trans hrevision.symm)
    obtain rfl := Option.some.inj (hread.symm.trans hbetween)
    exact ⟨moment, hmoment, rfl, read, hheld, htext⟩
  · exact ⟨reading, ⟨hmoment.started.trans horder, hreading,
      unanswered_of_prefix hreading hunanswered⟩, rfl, read, hread, htext⟩

/-- Whether what a call knows was so at a moment of the call. -/
def OnCourse (asked : SourcePath) (during : List Event → Prop) : Fetch → Prop
  | .waiting => False
  | .started other => other = asked
  | .dated other revision | .missed other revision =>
    other = asked ∧ ∃ moment held, during moment ∧
      heldAfter moment (.rooted asked.text) = some held ∧ held.revision = revision
  | .fetched file => ∃ moment, during moment ∧ (run moment).Says (.rooted asked.text) (.ok file)
  | .finished answer => ∃ moment, during moment ∧ (run moment).Says (.rooted asked.text) answer

/-- What was so at some moments was so at more of them. -/
theorem OnCourse.mono {during later : List Event → Prop} {fetch : Fetch}
    (h : OnCourse asked during fetch) (hlater : ∀ moment, during moment → later moment) :
    OnCourse asked later fetch := by
  cases fetch with
  | waiting => exact h
  | started => exact h
  | dated | missed =>
    obtain ⟨hasked, moment, held, hmoment, hheld⟩ := h
    exact ⟨hasked, moment, held, hlater moment hmoment, hheld⟩
  | fetched | finished =>
    obtain ⟨moment, hmoment, hsays⟩ := h
    exact ⟨moment, hlater moment hmoment, hsays⟩

/-- Every step of a call finds out what is so at that moment. -/
theorem Moves.onCourse (hmoves : Moves (run events) event after) (hstart : start <+: events)
    (h : OnCourse asked (IsDuring call start events) ((run events).calls call)) :
    OnCourse asked (IsDuring call start (events ++ [event])) (after.calls call) := by
  have hkeep := h.mono fun _ hmoment => hmoment.concat event
  have hnow : ∀ {fetch : Fetch}, (run events).calls call = fetch → fetch.answer? = none →
      IsDuring call start (events ++ [event]) events := fun hcall hanswer =>
    ⟨hstart, List.prefix_append _ _, hcall ▸ hanswer⟩
  by_cases hcall : event.call? = some call
  · cases hmoves with
    | stay | number | store | remove | forget => exact hkeep
    | start hwaiting =>
      cases hcall
      rw [hwaiting] at h
      exact h.elim
    | date hstarted hheld =>
      cases hcall
      rw [hstarted] at h
      obtain rfl := h
      rw [calls_set_self]
      exact ⟨rfl, events, _, hnow hstarted rfl, hheld, rfl⟩
    | missing hbefore hnone =>
      cases hcall
      rw [calls_set_self]
      rcases hbefore with hstarted | ⟨revision, hmissed⟩
      · rw [hstarted] at h
        obtain rfl := h
        exact ⟨events, hnow hstarted rfl, rfl, hnone⟩
      · rw [hmissed] at h
        obtain ⟨rfl, -⟩ := h
        exact ⟨events, hnow hmissed rfl, rfl, hnone⟩
    | hit hdated hkept =>
      cases hcall
      rw [hdated] at h
      obtain ⟨rfl, moment, held, hmoment, hheld, hrevision⟩ := h
      obtain ⟨moment, hmoment, hsays⟩ :=
        says_of_kept hmoment (hdated ▸ rfl) hheld hrevision hkept
      rw [calls_set_self]
      exact ⟨moment, hmoment.concat _, hsays⟩
    | miss hdated =>
      cases hcall
      rw [hdated] at hkeep
      rw [calls_set_self]
      exact hkeep
    | read hmissed hheld =>
      cases hcall
      rw [hmissed] at h
      obtain ⟨rfl, -⟩ := h
      rw [calls_set_self]
      exact ⟨events, hnow hmissed rfl, rfl, _, hheld, rfl⟩
    | keep hfetched =>
      cases hcall
      rw [hfetched] at hkeep
      rw [calls_set_self]
      exact hkeep
  · rw [hmoves.calls_eq hcall]
    exact hkeep

/-- From its start on, what a call knows was so at a moment of the call. -/
theorem onCourse_run {before : List Event} (hwaiting : (run before).calls call = .waiting)
    (events : List Event) (hevents : before ++ [.start call asked] <+: events) :
    OnCourse asked (IsDuring call (before ++ [.start call asked]) events)
      ((run events).calls call) := by
  obtain ⟨rest, rfl⟩ := hevents
  induction rest using List.reverseRecOn with
  | nil =>
    rw [List.append_nil, run_concat]
    simp only [step, hwaiting, calls_set_self]
    rfl
  | append_singleton rest event ih =>
    rw [← List.append_assoc]
    exact (moves_run _ event).onCourse (List.prefix_append _ _) ih

/-- Without edits a file stays as it is during a call. -/
theorem heldAfter_of_no_edits
    (hedits : ∀ moment event, IsDuring call start events moment → moment ++ [event] <+: events →
      event.isEdit = false)
    {moment : List Event} (hmoment : IsDuring call start events moment) (path : SourcePath) :
    heldAfter moment path = heldAfter start path := by
  obtain ⟨rest, rfl⟩ := hmoment.started
  induction rest using List.reverseRecOn with
  | nil => rw [List.append_nil]
  | append_singleton rest event ih =>
    rw [← List.append_assoc] at hmoment ⊢
    have hprefix : start ++ rest <+: start ++ rest ++ [event] := List.prefix_append _ _
    have hbefore : IsDuring call start events (start ++ rest) :=
      ⟨List.prefix_append _ _, hprefix.trans hmoment.past,
        unanswered_of_prefix hprefix hmoment.unanswered⟩
    rcases (moves_run (start ++ rest) event).held_cases path with hsame | ⟨hedit, -⟩
    · exact hsame.trans (ih hbefore)
    · rw [hedits _ event hbefore hmoment.past] at hedit
      cases hedit

/-- An answer that is right about the files in memory is what reading the file gives, also at any
other moment when the same stands there. -/
theorem read_of_says {answer : Except ReadFailure KeptFile} {moment other : List Event}
    (h : (run moment).Says (.rooted asked.text) answer)
    (hsame : heldAfter other (.rooted asked.text) = heldAfter moment (.rooted asked.text)) :
    (MemorySources.read (.rooted asked.text)).outcomeFrom (run other).cached.inner =
      answer.map KeptFile.text := by
  obtain ⟨hdenied, hscheduled⟩ := isPlain_run other
  refine (read_eq hdenied hscheduled asked).1.trans ?_
  cases answer with
  | ok file =>
    obtain ⟨-, held, hheld, htext⟩ := h
    rw [show (run other).cached.inner.files.get? (.rooted asked.text) = some held from
      hsame.trans hheld]
    exact congrArg Except.ok htext
  | error failure =>
    obtain ⟨rfl, hnone⟩ := h
    rw [show (run other).cached.inner.files.get? (.rooted asked.text) = none from
      hsame.trans hnone]
    rfl

/-- A call for a file answers with a text that stood in the file at a moment between its start and
its answer, and fails only if there was no file at such a moment. If no edit comes between, it
gives what reading the file gives. -/
theorem answer_of_moment {before events : List Event} {answer : Except ReadFailure KeptFile}
    (hwaiting : (run before).calls call = .waiting)
    (hstarted : before ++ [.start call asked] <+: events)
    (hfinished : (run events).calls call = .finished answer) :
    (∃ moment, IsDuring call (before ++ [.start call asked]) events moment ∧
      (run moment).Says (.rooted asked.text) answer) ∧
    ((∀ moment event, IsDuring call (before ++ [.start call asked]) events moment →
        moment ++ [event] <+: events → event.isEdit = false) →
      ∀ moment, IsDuring call (before ++ [.start call asked]) events moment →
        (MemorySources.read (.rooted asked.text)).outcomeFrom (run moment).cached.inner =
          answer.map KeptFile.text) := by
  have hcourse := onCourse_run hwaiting events hstarted
  rw [hfinished] at hcourse
  obtain ⟨moment, hmoment, hsays⟩ := hcourse
  refine ⟨⟨moment, hmoment, hsays⟩, fun hedits other hother => read_of_says hsays ?_⟩
  rw [heldAfter_of_no_edits hedits hother, heldAfter_of_no_edits hedits hmoment]

/-- A call asks for a revision before a file is edited. Meanwhile another call, which has asked
before the edit, too, reads the new text and keeps it with the old revision. The first call finds
it and answers with the new text. -/
theorem answer_of_moment_with_old_revision :
    let path : SourcePath := ⟨"/a.glsl"⟩
    let before : List Event := [.number 0, .store 0 "a.glsl" "one"]
    let events : List Event := before ++ [.start 1 path] ++ [.start 0 path, .advance 0, .advance 1,
      .number 1, .store 1 "a.glsl" "two", .advance 0, .advance 0, .advance 0, .advance 1]
    (run before).calls 1 = .waiting ∧
      (run events).calls 1 = .finished (.ok ⟨path, "two", 1⟩) ∧
      ∃ moment, IsDuring 1 (before ++ [.start 1 path]) events moment ∧
        (run moment).Says (.rooted path.text) (.ok ⟨path, "two", 1⟩) := by
  intro path before events
  have hwaiting : (run before).calls 1 = .waiting := by decide +kernel
  have hfinished : (run events).calls 1 = .finished (.ok ⟨path, "two", 1⟩) := by decide +kernel
  exact ⟨hwaiting, hfinished,
    (answer_of_moment hwaiting (List.prefix_append _ _) hfinished).1⟩

end During

end Runs

end Sharing

end CachedSources

end ShaderAssembly
