/-
SettingProfiles.Proofs.Gate.Admission — first come, first served, one at a
time, and to the end.

Here a gate is a relation: a caller arrives with a program, is admitted, its
program is asked on, returns, fails or breaks off, and the caller may leave at
any moment. What happened is kept as a log, and everything said about callers
is read off the log alone: who is waiting, who is in progress, what was asked
of whom. That the gate itself agrees with its log is the invariant.

  §1 Events     — what can happen, and what a log says.
  §2 `Run`      — the steps that a gate allows.
  §3 One more   — how one event changes what a log says.
  §4 Invariants — `InOrder` and `InFull`, which every step keeps.
  §5 Endings    — what is admitted can be brought to its end.
  §6 Main statement — `Run.one_at_a_time_in_order`.
-/
import Mathlib.Data.List.Induction
import SettingProfiles.Proofs.Gate.Serial

namespace SettingProfiles

/-- What is left of a program once it was asked, and answered, these questions. -/
inductive Program.Answered {Q : Type} {A : Q → Type} {α : Type} (p : Program Q A α) :
    List (Exchange Q A) → Program Q A α → Prop
  | nothing : p.Answered [] p
  | snoc {xs : List (Exchange Q A)} {q : Q} {next : A q → Program Q A α}
      (hxs : p.Answered xs (.ask q next)) (a : A q) : p.Answered (xs ++ [⟨q, a⟩]) (next a)

namespace Gate

/-! ## §1 Events -/

/-- How a program ends. -/
inductive Ending (T E : Type) where
  | returned (value : T)
  | failed (error : E)
  /-- It stopped in the middle of what it did. -/
  | brokeOff (message : String)

/-- What happens at a gate. -/
inductive Event (Q : Type) (A : Q → Type) (T E : Type) where
  | arrive (caller : String) (program : Program Q A (Ending T E))
  | admitNext (caller : String)
  /-- A question of the caller's program is answered. -/
  | work (caller : String) (exchange : Exchange Q A)
  | finish (caller : String) (ending : Ending T E)
  | leave (caller : String)

namespace Event

variable {Q : Type} {A : Q → Type} {T E : Type}

@[simp] def arrival? : Event Q A T E → Option String
  | arrive caller _ => some caller
  | _ => none

@[simp] def admission? : Event Q A T E → Option String
  | admitNext caller => some caller
  | _ => none

@[simp] def ending? : Event Q A T E → Option String
  | finish caller _ => some caller
  | _ => none

@[simp] def leaving? : Event Q A T E → Option String
  | leave caller => some caller
  | _ => none

@[simp] def workOf? (caller : String) : Event Q A T E → Option (Exchange Q A)
  | work c exchange => if c = caller then some exchange else none
  | _ => none

end Event

/-- What happened at a gate, in order. -/
abbrev Log (Q : Type) (A : Q → Type) (T E : Type) : Type := List (Event Q A T E)

namespace Log

variable {Q : Type} {A : Q → Type} {T E : Type}

/-- Who has come, in the order of arrival. -/
def arrivals (es : Log Q A T E) : List String := es.filterMap Event.arrival?

/-- Who was admitted, in the order of admission. -/
def admissions (es : Log Q A T E) : List String := es.filterMap Event.admission?

/-- Whose program has ended, whichever way. -/
def endings (es : Log Q A T E) : List String := es.filterMap Event.ending?

/-- Who has left. -/
def leavings (es : Log Q A T E) : List String := es.filterMap Event.leaving?

/-- What a caller's program was asked and answered. -/
def worksOf (caller : String) (es : Log Q A T E) : List (Exchange Q A) :=
  es.filterMap (Event.workOf? caller)

/-- Who has come and was neither admitted nor has left, in the order of arrival. -/
def waiting (es : Log Q A T E) : List String :=
  es.arrivals.filter fun c => c ∉ es.admissions ∧ c ∉ es.leavings

/-- Whose program was admitted and has not ended. -/
def inProgress (es : Log Q A T E) : List String :=
  es.admissions.filter fun c => c ∉ es.endings

/-- Nobody comes twice, and who leaves has come. -/
def Fits (es : Log Q A T E) : Event Q A T E → Prop
  | .arrive caller _ => caller ∉ es.arrivals
  | .leave caller => caller ∈ es.arrivals
  | _ => True

instance (es : Log Q A T E) : (e : Event Q A T E) → Decidable (es.Fits e)
  | .arrive caller _ => inferInstanceAs (Decidable (caller ∉ es.arrivals))
  | .leave caller => inferInstanceAs (Decidable (caller ∈ es.arrivals))
  | .admitNext _ | .work _ _ | .finish _ _ => .isTrue trivial

end Log

/-! ## §2 `Run` -/

section Steps

variable {Q : Type} {A : Q → Type} {T E : Type}

/-- What a gate allows to happen, and the gate afterwards. -/
inductive Step : Gate Q A (Ending T E) → Event Q A T E → Gate Q A (Ending T E) → Prop
  | arrive (g : Gate Q A (Ending T E)) (caller : String) (program : Program Q A (Ending T E)) :
      Step g (.arrive caller program) (g.enter caller program)
  | admitNext {g g' : Gate Q A (Ending T E)} {r : Admitted Q A (Ending T E)}
      (hgate : g.admit? = some g') (hrunning : g'.running = some r) :
      Step g (.admitNext r.caller) g'
  | work {g g' : Gate Q A (Ending T E)} {caller : String} {gone : Bool} {q : Q}
      {next : A q → Program Q A (Ending T E)} {answer : (q : Q) → Option (A q)} {a : A q}
      (hrunning : g.running = some ⟨caller, gone, .ask q next⟩)
      (hproceed : g.proceed? answer = some g') (hanswer : answer q = some a) :
      Step g (.work caller ⟨q, a⟩) g'
  | finish {g g' : Gate Q A (Ending T E)} {caller : String} {gone : Bool} {ending : Ending T E}
      {told : Option (Finished (Ending T E))}
      (hrunning : g.running = some ⟨caller, gone, .done ending⟩)
      (hfinish : g.finish? = some (told, g')) :
      Step g (.finish caller ending) g'
  | leave (g : Gate Q A (Ending T E)) (caller : String) :
      Step g (.leave caller) (g.leave caller)

/-- A gate at which all this has happened, nobody having been there before. -/
inductive Run : Log Q A T E → Gate Q A (Ending T E) → Prop
  | nobody : Run [] .empty
  | snoc {es : Log Q A T E} {e : Event Q A T E} {g g' : Gate Q A (Ending T E)}
      (hrun : Run es g) (hfits : es.Fits e) (hstep : Step g e g') : Run (es ++ [e]) g'

variable {es : Log Q A T E} {g g' : Gate Q A (Ending T E)} {c caller : String}

/-- The last event of a run happened at a gate that allowed it. -/
theorem Run.of_snoc {e : Event Q A T E} (hrun : Run (es ++ [e]) g') :
    ∃ g, Run es g ∧ es.Fits e ∧ Step g e g' := by
  generalize hlog : es ++ [e] = log at hrun
  cases hrun with
  | nobody => simp at hlog
  | snoc hrun hfits hstep =>
    obtain ⟨rfl, hlast⟩ := List.append_inj' hlog rfl
    cases hlast
    exact ⟨_, hrun, hfits, hstep⟩

/-- A run has gone through each of its beginnings. -/
theorem Run.of_append {later : Log Q A T E} (hrun : Run (es ++ later) g') : ∃ g, Run es g := by
  induction later using List.reverseRecOn generalizing g' with
  | nil => exact ⟨g', by simpa using hrun⟩
  | append_singleton later e ih =>
    rw [← List.append_assoc] at hrun
    obtain ⟨g, hrun, -, -⟩ := hrun.of_snoc
    exact ih hrun

/-! ### What a step does to the gate -/

/-- Who is admitted was the first of the queue, and nothing was running. -/
theorem Step.of_admitNext (hstep : Step g (.admitNext c) g') :
    ∃ w rest, g.running = none ∧ g.queue = w :: rest ∧ w.caller = c ∧
      g' = ⟨rest, some ⟨c, false, w.program⟩⟩ := by
  cases hstep with
  | admitNext hgate hrunning =>
    obtain ⟨w, rest, hnone, hqueue, rfl⟩ := admit?_eq_some hgate
    cases hrunning
    exact ⟨w, rest, hnone, hqueue, rfl, rfl⟩

/-- Only the program that is running is asked on. -/
theorem Step.of_work {x : Exchange Q A} (hstep : Step g (.work c x) g') :
    ∃ gone next, g.running = some ⟨c, gone, .ask x.question next⟩ ∧
      g' = { g with running := some ⟨c, gone, next x.answer⟩ } := by
  cases hstep with
  | work hrunning hproceed hanswer =>
    obtain ⟨_, _, _, _, _, hasking, ha, rfl⟩ := proceed?_eq_some hproceed
    rw [hrunning] at hasking
    cases hasking
    rw [hanswer] at ha
    cases ha
    exact ⟨_, _, hrunning, rfl⟩

/-- Only the program that is running ends, and only once it is done. -/
theorem Step.of_finish {ending : Ending T E} (hstep : Step g (.finish c ending) g') :
    ∃ gone, g.running = some ⟨c, gone, .done ending⟩ ∧ g' = { g with running := none } := by
  cases hstep with
  | finish hrunning hfinish =>
    obtain ⟨_, _, _, -, -, rfl⟩ := finish?_eq_some hfinish
    exact ⟨_, hrunning, rfl⟩

/-! ### When the gate allows a step -/

theorem step_admitNext {w : Waiting Q A (Ending T E)} {rest : List (Waiting Q A (Ending T E))}
    (hrunning : g.running = none) (hqueue : g.queue = w :: rest) :
    Step g (.admitNext w.caller) ⟨rest, some ⟨w.caller, false, w.program⟩⟩ := by
  have hgate : g.admit? = some ⟨rest, some ⟨w.caller, false, w.program⟩⟩ := by
    simp [admit?, hrunning, hqueue]
  exact .admitNext hgate rfl

theorem step_work {gone : Bool} {q : Q} {next : A q → Program Q A (Ending T E)}
    (hrunning : g.running = some ⟨c, gone, .ask q next⟩) (answer : (q : Q) → A q) :
    Step g (.work c ⟨q, answer q⟩) { g with running := some ⟨c, gone, next (answer q)⟩ } := by
  have hproceed : g.proceed? (fun q => some (answer q)) =
      some { g with running := some ⟨c, gone, next (answer q)⟩ } := by
    simp [proceed?, hrunning]
  exact .work hrunning hproceed rfl

theorem step_finish {gone : Bool} {ending : Ending T E}
    (hrunning : g.running = some ⟨c, gone, .done ending⟩) :
    Step g (.finish c ending) { g with running := none } := by
  have hfinish : g.finish? =
      some (if gone then none else some ⟨c, ending⟩, { g with running := none }) := by
    simp [finish?, hrunning]
  exact .finish hrunning hfinish

end Steps

/-! ## §3 One more -/

namespace Log

variable {Q : Type} {A : Q → Type} {T E : Type} {es : Log Q A T E} {c : String}

theorem filterMap_snoc {B : Type} (f : Event Q A T E → Option B) (es : Log Q A T E)
    (e : Event Q A T E) : (es ++ [e]).filterMap f = es.filterMap f ++ (f e).toList := by
  cases h : f e <;> simp [h]

@[simp] theorem arrivals_snoc (es : Log Q A T E) (e : Event Q A T E) :
    arrivals (es ++ [e]) = es.arrivals ++ e.arrival?.toList := filterMap_snoc _ es e

@[simp] theorem admissions_snoc (es : Log Q A T E) (e : Event Q A T E) :
    admissions (es ++ [e]) = es.admissions ++ e.admission?.toList := filterMap_snoc _ es e

@[simp] theorem endings_snoc (es : Log Q A T E) (e : Event Q A T E) :
    endings (es ++ [e]) = es.endings ++ e.ending?.toList := filterMap_snoc _ es e

@[simp] theorem leavings_snoc (es : Log Q A T E) (e : Event Q A T E) :
    leavings (es ++ [e]) = es.leavings ++ e.leaving?.toList := filterMap_snoc _ es e

@[simp] theorem worksOf_snoc (caller : String) (es : Log Q A T E) (e : Event Q A T E) :
    worksOf caller (es ++ [e]) = es.worksOf caller ++ (e.workOf? caller).toList :=
  filterMap_snoc _ es e

theorem mem_endings : c ∈ es.endings ↔ ∃ ending, .finish c ending ∈ es := by
  simp only [endings, List.mem_filterMap]
  constructor
  · rintro ⟨e, he, hc⟩
    cases e <;> cases hc
    exact ⟨_, he⟩
  · rintro ⟨ending, hending⟩
    exact ⟨_, hending, rfl⟩

theorem mem_waiting : c ∈ es.waiting ↔ c ∈ es.arrivals ∧ c ∉ es.admissions ∧ c ∉ es.leavings := by
  simp [waiting]

theorem mem_inProgress : c ∈ es.inProgress ↔ c ∈ es.admissions ∧ c ∉ es.endings := by
  simp [inProgress]

theorem worksOf_eq_nil (h : ∀ x, .work c x ∉ es) : es.worksOf c = [] := by
  refine List.filterMap_eq_nil_iff.mpr fun e he => ?_
  cases e with
  | work caller x =>
    refine if_neg ?_
    rintro rfl
    exact h x he
  | arrive => rfl
  | admitNext => rfl
  | finish => rfl
  | leave => rfl

/-! ### Waiting and in progress after one more event -/

/-- Who comes is the last to wait. -/
theorem waiting_arrive {p : Program Q A (Ending T E)} (hadmitted : c ∉ es.admissions)
    (hleft : c ∉ es.leavings) : waiting (es ++ [.arrive c p]) = es.waiting ++ [c] := by
  simp [waiting, hadmitted, hleft]

@[simp] theorem waiting_admitNext (es : Log Q A T E) (c : String) :
    waiting (es ++ [.admitNext c]) = es.waiting.filter (· ≠ c) := by
  simp [waiting, List.filter_filter, Bool.and_comm, Bool.and_assoc]

@[simp] theorem waiting_leave (es : Log Q A T E) (c : String) :
    waiting (es ++ [.leave c]) = es.waiting.filter (· ≠ c) := by
  simp [waiting, List.filter_filter, Bool.and_comm, Bool.and_left_comm]

/-- Who is admitted is in progress from then on, unless its program has ended before. -/
theorem inProgress_admitNext (hended : c ∉ es.endings) :
    inProgress (es ++ [.admitNext c]) = es.inProgress ++ [c] := by
  simp [inProgress, hended]

@[simp] theorem inProgress_finish (es : Log Q A T E) (c : String) (ending : Ending T E) :
    inProgress (es ++ [.finish c ending]) = es.inProgress.filter (· ≠ c) := by
  simp [inProgress, List.filter_filter, Bool.and_comm]

end Log

/-! ## §4 Invariants -/

section Agreement

variable {Q : Type} {A : Q → Type} {T E : Type} {es : Log Q A T E}
  {g g' : Gate Q A (Ending T E)} {c : String}

/-- The gate holds those callers that its log says, and they are admitted in the
order of their arrival. -/
structure InOrder (es : Log Q A T E) (g : Gate Q A (Ending T E)) : Prop where
  queue : g.queue.map (·.caller) = es.waiting
  running : g.running.toList.map (·.caller) = es.inProgress
  nodup : es.arrivals.Nodup
  /-- Who is still waiting comes after all who were admitted. -/
  order : (es.admissions ++ es.waiting).Sublist es.arrivals
  ended : es.endings ⊆ es.admissions
  left : es.leavings ⊆ es.arrivals

namespace InOrder

theorem nobody : InOrder ([] : Log Q A T E) .empty :=
  ⟨rfl, rfl, .nil, .slnil, List.nil_subset _, List.nil_subset _⟩

theorem admitted (h : InOrder es g) : es.admissions ⊆ es.arrivals :=
  ((List.sublist_append_left _ _).trans h.order).subset

theorem inProgress_eq (h : InOrder es g) {r : Admitted Q A (Ending T E)}
    (hr : g.running = some r) : es.inProgress = [r.caller] := by
  rw [← h.running, hr]
  rfl

theorem waiting_eq (h : InOrder es g) {w : Waiting Q A (Ending T E)}
    {rest : List (Waiting Q A (Ending T E))} (hqueue : g.queue = w :: rest) :
    es.waiting = w.caller :: rest.map (·.caller) := by
  rw [← h.queue, hqueue]
  rfl

theorem head_mem_waiting (h : InOrder es g) {w : Waiting Q A (Ending T E)}
    {rest : List (Waiting Q A (Ending T E))} (hqueue : g.queue = w :: rest) :
    w.caller ∈ es.waiting := h.waiting_eq hqueue ▸ List.mem_cons_self

theorem arrive (h : InOrder es g) (hnew : c ∉ es.arrivals) (p : Program Q A (Ending T E)) :
    InOrder (es ++ [.arrive c p]) (g.enter c p) := by
  have hwaiting : Log.waiting (es ++ [.arrive c p]) = es.waiting ++ [c] :=
    Log.waiting_arrive (fun hc => hnew (h.admitted hc)) fun hc => hnew (h.left hc)
  refine ⟨?_, ?_, ?_, ?_, ?_, ?_⟩
  · simp [enter, hwaiting, h.queue]
  · simpa [Log.inProgress, enter] using h.running
  · have hapart : ∀ d ∈ es.arrivals, d ≠ c := fun d hd hdc => hnew (hdc ▸ hd)
    simpa [List.nodup_append, h.nodup] using hapart
  · simpa [hwaiting] using h.order.append_right [c]
  · simpa using h.ended
  · simpa using List.Subset.trans h.left (List.subset_append_left _ [c])

theorem admitNext (h : InOrder es g) {w : Waiting Q A (Ending T E)}
    {rest : List (Waiting Q A (Ending T E))} (hnone : g.running = none)
    (hqueue : g.queue = w :: rest) :
    InOrder (es ++ [.admitNext w.caller]) ⟨rest, some ⟨w.caller, false, w.program⟩⟩ := by
  have hwaiting : es.waiting = w.caller :: rest.map (·.caller) := h.waiting_eq hqueue
  have hnodup : (es.admissions ++ es.waiting).Nodup := h.nodup.sublist h.order
  have hothers : es.waiting.filter (· ≠ w.caller) = rest.map (·.caller) := by
    have hnotmem : w.caller ∉ rest.map (·.caller) := by
      have hwaits : (w.caller :: rest.map (·.caller)).Nodup :=
        hwaiting ▸ (List.nodup_append.mp hnodup).2.1
      exact (List.nodup_cons.mp hwaits).1
    rw [hwaiting, List.filter_cons_of_neg (by simp), List.filter_eq_self]
    intro d hd
    exact decide_eq_true fun hdc => hnotmem (hdc ▸ hd)
  have hended : w.caller ∉ es.endings := fun hc =>
    (Log.mem_waiting.mp (h.head_mem_waiting hqueue)).2.1 (h.ended hc)
  refine ⟨?_, ?_, ?_, ?_, ?_, ?_⟩
  · simp only [Log.waiting_admitNext, hothers]
  · rw [Log.inProgress_admitNext hended, ← h.running, hnone]
    rfl
  · simpa using h.nodup
  · rw [Log.waiting_admitNext, hothers]
    simpa [hwaiting] using h.order
  · simpa using List.Subset.trans h.ended (List.subset_append_left _ [w.caller])
  · simpa using h.left

theorem work (h : InOrder es g) {gone : Bool} {q : Q} {next : A q → Program Q A (Ending T E)}
    (hrunning : g.running = some ⟨c, gone, .ask q next⟩) (a : A q) :
    InOrder (es ++ [.work c ⟨q, a⟩]) { g with running := some ⟨c, gone, next a⟩ } := by
  have hinProgress : es.inProgress = [c] := h.inProgress_eq hrunning
  refine ⟨?_, ?_, ?_, ?_, ?_, ?_⟩
  · simpa [Log.waiting] using h.queue
  · simpa [Log.inProgress] using hinProgress.symm
  · simpa using h.nodup
  · simpa [Log.waiting] using h.order
  · simpa using h.ended
  · simpa using h.left

theorem finish (h : InOrder es g) {gone : Bool} {ending : Ending T E}
    (hrunning : g.running = some ⟨c, gone, .done ending⟩) :
    InOrder (es ++ [.finish c ending]) { g with running := none } := by
  have hinProgress : es.inProgress = [c] := h.inProgress_eq hrunning
  have hadmitted : c ∈ es.admissions :=
    (Log.mem_inProgress.mp (hinProgress ▸ List.mem_singleton_self c)).1
  refine ⟨?_, ?_, ?_, ?_, ?_, ?_⟩
  · simpa [Log.waiting] using h.queue
  · simp [hinProgress]
  · simpa using h.nodup
  · simpa [Log.waiting] using h.order
  · simpa [hadmitted] using h.ended
  · simpa using h.left

theorem leave (h : InOrder es g) (hcame : c ∈ es.arrivals) :
    InOrder (es ++ [.leave c]) (g.leave c) := by
  refine ⟨?_, ?_, ?_, ?_, ?_, ?_⟩
  · rw [Log.waiting_leave, ← h.queue, List.filter_map]
    rfl
  · have hrunning :
        (g.leave c).running.toList.map (·.caller) = g.running.toList.map (·.caller) := by
      cases hr : g.running <;> simp [Gate.leave, hr]
    simpa [hrunning, Log.inProgress] using h.running
  · simpa using h.nodup
  · simpa using ((List.Sublist.refl _).append List.filter_sublist).trans h.order
  · simpa using h.ended
  · simpa [hcame] using h.left

/-- Every step keeps the order. -/
theorem step {e : Event Q A T E} (h : InOrder es g) (hfits : es.Fits e) (hstep : Step g e g') :
    InOrder (es ++ [e]) g' := by
  cases e with
  | arrive c p =>
    cases hstep
    exact h.arrive hfits p
  | admitNext c =>
    obtain ⟨w, rest, hnone, hqueue, rfl, rfl⟩ := hstep.of_admitNext
    exact h.admitNext hnone hqueue
  | work c x =>
    obtain ⟨gone, next, hrunning, rfl⟩ := hstep.of_work
    exact h.work hrunning x.answer
  | finish c ending =>
    obtain ⟨gone, hrunning, rfl⟩ := hstep.of_finish
    exact h.finish hrunning
  | leave c =>
    cases hstep
    exact h.leave hfits

end InOrder

/-- Every run is in order. -/
theorem Run.inOrder (hrun : Run es g) : InOrder es g := by
  induction hrun with
  | nobody => exact .nobody
  | snoc _ hfits hstep ih => exact ih.step hfits hstep

/-- The caller has brought a program, and this is left of it. -/
def Log.Left (es : Log Q A T E) (caller : String) (rest : Program Q A (Ending T E)) : Prop :=
  ∃ p, .arrive caller p ∈ es ∧ p.Answered (es.worksOf caller) rest

/-- What is left of a program changes only when the program is asked. -/
theorem Log.Left.snoc {rest : Program Q A (Ending T E)} (h : es.Left c rest) {e : Event Q A T E}
    (hwork : e.workOf? c = none) : Log.Left (es ++ [e]) c rest := by
  obtain ⟨p, hp, hrest⟩ := h
  refine ⟨p, List.mem_append_left _ hp, ?_⟩
  rw [Log.worksOf_snoc, hwork]
  simpa using hrest

/-- The gate holds what is left of the program that was admitted last, and whatever
has ended was asked all its questions. -/
structure InFull (es : Log Q A T E) (g : Gate Q A (Ending T E)) : Prop where
  brought : ∀ w ∈ g.queue, .arrive w.caller w.program ∈ es
  rest : ∀ r ∈ g.running, es.Left r.caller r.rest
  worked : ∀ c x, .work c x ∈ es → c ∈ es.admissions
  ended : ∀ c ending, .finish c ending ∈ es → es.Left c (.done ending)

namespace InFull

theorem nobody : InFull ([] : Log Q A T E) .empty where
  brought _ hw := by cases hw
  rest _ hr := by cases hr
  worked _ _ hx := by cases hx
  ended _ _ he := by cases he

/-- Whoever has not been admitted was asked nothing. -/
theorem worksOf_eq_nil (h : InFull es g) (hc : c ∉ es.admissions) : es.worksOf c = [] :=
  Log.worksOf_eq_nil fun x hx => hc (h.worked c x hx)

theorem arrive (h : InFull es g) (p : Program Q A (Ending T E)) :
    InFull (es ++ [.arrive c p]) (g.enter c p) where
  brought w hw := by
    rcases List.mem_append.mp hw with hw | hw
    · exact List.mem_append_left _ (h.brought w hw)
    · cases List.mem_singleton.mp hw
      exact List.mem_append_right _ List.mem_cons_self
  rest r hr := (h.rest r hr).snoc rfl
  worked d x hx := by simpa using h.worked d x (by simpa using hx)
  ended d ending he := (h.ended d ending (by simpa using he)).snoc rfl

theorem admitNext (h : InFull es g) {w : Waiting Q A (Ending T E)}
    {rest : List (Waiting Q A (Ending T E))} (hqueue : g.queue = w :: rest)
    (hnew : w.caller ∉ es.admissions) :
    InFull (es ++ [.admitNext w.caller]) ⟨rest, some ⟨w.caller, false, w.program⟩⟩ where
  brought v hv := List.mem_append_left _ (h.brought v (hqueue ▸ List.mem_cons_of_mem _ hv))
  rest r hr := by
    cases hr
    have hasked : es.worksOf w.caller = [] := h.worksOf_eq_nil hnew
    have hleft : es.Left w.caller w.program :=
      ⟨w.program, h.brought w (hqueue ▸ List.mem_cons_self), hasked ▸ .nothing⟩
    exact hleft.snoc rfl
  worked d x hx := by simpa using Or.inl (h.worked d x (by simpa using hx))
  ended d ending he := (h.ended d ending (by simpa using he)).snoc rfl

theorem work (h : InFull es g) {gone : Bool} {q : Q} {next : A q → Program Q A (Ending T E)}
    (hrunning : g.running = some ⟨c, gone, .ask q next⟩) (a : A q) (hc : c ∈ es.inProgress) :
    InFull (es ++ [.work c ⟨q, a⟩]) { g with running := some ⟨c, gone, next a⟩ } where
  brought w hw := List.mem_append_left _ (h.brought w hw)
  rest r hr := by
    cases hr
    obtain ⟨p, hp, hrest⟩ := h.rest _ hrunning
    exact ⟨p, List.mem_append_left _ hp, by simpa using hrest.snoc a⟩
  worked d x hx := by
    rcases List.mem_append.mp hx with hx | hx
    · simpa using h.worked d x hx
    · cases List.mem_singleton.mp hx
      simpa using (Log.mem_inProgress.mp hc).1
  ended d ending he := by
    have he : .finish d ending ∈ es := by simpa using he
    have hne : c ≠ d := fun hcd =>
      (Log.mem_inProgress.mp hc).2 (Log.mem_endings.mpr ⟨ending, hcd ▸ he⟩)
    exact (h.ended d ending he).snoc (if_neg hne)

theorem finish (h : InFull es g) {gone : Bool} {ending : Ending T E}
    (hrunning : g.running = some ⟨c, gone, .done ending⟩) :
    InFull (es ++ [.finish c ending]) { g with running := none } where
  brought w hw := List.mem_append_left _ (h.brought w hw)
  rest _ hr := by cases hr
  worked d x hx := by simpa using h.worked d x (by simpa using hx)
  ended d e he := by
    rcases List.mem_append.mp he with he | he
    · exact (h.ended d e he).snoc rfl
    · cases List.mem_singleton.mp he
      exact (h.rest _ hrunning).snoc rfl

theorem leave (h : InFull es g) : InFull (es ++ [.leave c]) (g.leave c) where
  brought w hw := List.mem_append_left _ (h.brought w (List.mem_of_mem_filter hw))
  rest r hr := by
    obtain ⟨r, hrunning, rfl⟩ := Option.map_eq_some_iff.mp hr
    exact (h.rest r hrunning).snoc rfl
  worked d x hx := by simpa using h.worked d x (by simpa using hx)
  ended d ending he := (h.ended d ending (by simpa using he)).snoc rfl

/-- Every step of a run in order keeps it in full. -/
theorem step {e : Event Q A T E} (h : InFull es g) (horder : InOrder es g)
    (hstep : Step g e g') : InFull (es ++ [e]) g' := by
  cases e with
  | arrive c p =>
    cases hstep
    exact h.arrive p
  | admitNext c =>
    obtain ⟨w, rest, -, hqueue, rfl, rfl⟩ := hstep.of_admitNext
    exact h.admitNext hqueue (Log.mem_waiting.mp (horder.head_mem_waiting hqueue)).2.1
  | work c x =>
    obtain ⟨gone, next, hrunning, rfl⟩ := hstep.of_work
    have hinProgress : es.inProgress = [c] := horder.inProgress_eq hrunning
    exact h.work hrunning x.answer (hinProgress ▸ List.mem_singleton_self c)
  | finish c ending =>
    obtain ⟨gone, hrunning, rfl⟩ := hstep.of_finish
    exact h.finish hrunning
  | leave c =>
    cases hstep
    exact h.leave

end InFull

theorem Run.inFull (hrun : Run es g) : InFull es g := by
  induction hrun with
  | nobody => exact .nobody
  | snoc hrun _ hstep ih => exact ih.step hrun.inOrder hstep

/-! ## §5 Endings -/

/-- What is running can be brought to its end, whoever is there to see it and however
its questions are answered. -/
theorem Run.exists_finish (hrun : Run es g) {gone : Bool} {rest p : Program Q A (Ending T E)}
    (hrunning : g.running = some ⟨c, gone, rest⟩) (hrest : p.Answered (es.worksOf c) rest)
    (answer : (q : Q) → A q) :
    ∃ xs ending g', Run (es ++ xs.map (.work c) ++ [.finish c ending]) g' ∧
      (∀ x ∈ xs, x.answer = answer x.question) ∧
      p.Answered (es.worksOf c ++ xs) (.done ending) := by
  induction rest generalizing es g with
  | done ending =>
    have hrun' : Run (es ++ [.finish c ending]) { g with running := none } :=
      hrun.snoc trivial (step_finish hrunning)
    exact ⟨[], ending, _, by simpa using hrun', by simp, by simpa using hrest⟩
  | ask q next ih =>
    have hnext : Run (es ++ [.work c ⟨q, answer q⟩]) _ :=
      hrun.snoc trivial (step_work hrunning answer)
    obtain ⟨xs, ending, g', hrun', hanswers, hdone⟩ :=
      ih (answer q) hnext rfl (by simpa using hrest.snoc (answer q))
    refine ⟨⟨q, answer q⟩ :: xs, ending, g', by simpa using hrun', ?_, by simpa using hdone⟩
    simpa using hanswers

/-! ## §6 Main statement -/

/-- Whatever is asked is asked of the one program in progress. -/
theorem Run.inProgress_of_work {before later : Log Q A T E} {x : Exchange Q A}
    (hrun : Run (before ++ .work c x :: later) g') : before.inProgress = [c] := by
  rw [List.append_cons] at hrun
  obtain ⟨_, hrun⟩ := hrun.of_append
  obtain ⟨g, hrun, -, hstep⟩ := hrun.of_snoc
  obtain ⟨gone, next, hrunning, -⟩ := hstep.of_work
  exact hrun.inOrder.inProgress_eq hrunning

/-- Who finishes was the one in progress. -/
theorem Run.inProgress_of_finish {before later : Log Q A T E} {ending : Ending T E}
    (hrun : Run (before ++ .finish c ending :: later) g') : before.inProgress = [c] := by
  rw [List.append_cons] at hrun
  obtain ⟨_, hrun⟩ := hrun.of_append
  obtain ⟨g, hrun, -, hstep⟩ := hrun.of_snoc
  obtain ⟨gone, hrunning, -⟩ := hstep.of_finish
  exact hrun.inOrder.inProgress_eq hrunning

/-- At most one program is in progress at any time. -/
theorem Run.inProgress_length_le (hrun : Run es g) : es.inProgress.length ≤ 1 := by
  rw [← hrun.inOrder.running, List.length_map]
  exact Option.length_toList_le

/-- What was admitted has ended with nothing left to ask, or can still be brought to
its end. -/
theorem Run.ended_or_going_on (hrun : Run es g) (hc : c ∈ es.admissions) :
    ∃ p, .arrive c p ∈ es ∧
      ((∃ ending, .finish c ending ∈ es ∧ p.Answered (es.worksOf c) (.done ending)) ∨
        c ∈ es.inProgress ∧ ∀ answer : (q : Q) → A q, ∃ xs ending g',
          Run (es ++ xs.map (.work c) ++ [.finish c ending]) g' ∧
          (∀ x ∈ xs, x.answer = answer x.question) ∧
          p.Answered (es.worksOf c ++ xs) (.done ending)) := by
  by_cases hended : c ∈ es.endings
  · obtain ⟨ending, hfinish⟩ := Log.mem_endings.mp hended
    obtain ⟨p, hp, hdone⟩ := hrun.inFull.ended c ending hfinish
    exact ⟨p, hp, Or.inl ⟨ending, hfinish, hdone⟩⟩
  · have hgoing : c ∈ es.inProgress := Log.mem_inProgress.mpr ⟨hc, hended⟩
    have hrunning : c ∈ g.running.toList.map (·.caller) := hrun.inOrder.running ▸ hgoing
    obtain ⟨r, hr, rfl⟩ := List.mem_map.mp hrunning
    have hr : g.running = some r := Option.mem_toList.mp hr
    obtain ⟨p, hp, hrest⟩ := hrun.inFull.rest r hr
    exact ⟨p, hp, Or.inr ⟨hgoing, hrun.exists_finish hr hrest⟩⟩

/-- Whoever has left and was not admitted by then is never admitted. -/
theorem Run.not_admitted_of_left {later : Log Q A T E} (hrun : Run (es ++ later) g)
    (hleft : c ∈ es.leavings) (hc : c ∉ es.admissions) : c ∉ Log.admissions (es ++ later) := by
  induction later using List.reverseRecOn generalizing g with
  | nil => simpa using hc
  | append_singleton later e ih =>
    rw [← List.append_assoc] at hrun ⊢
    obtain ⟨g₀, hrun₀, -, hstep⟩ := hrun.of_snoc
    rw [Log.admissions_snoc, List.mem_append, not_or]
    refine ⟨ih hrun₀, fun hgate => ?_⟩
    cases e with
    | admitNext d =>
      obtain ⟨w, rest, -, hqueue, rfl, -⟩ := hstep.of_admitNext
      cases List.mem_singleton.mp hgate
      have hwaits := Log.mem_waiting.mp (hrun₀.inOrder.head_mem_waiting hqueue)
      refine hwaits.2.2 ?_
      rw [Log.leavings, List.filterMap_append]
      exact List.mem_append_left _ hleft
    | arrive => cases hgate
    | work => cases hgate
    | finish => cases hgate
    | leave => cases hgate

/-- The one who can be admitted is the first of those who wait, once nothing is in
progress. -/
theorem Run.admitNext_iff (hrun : Run es g) :
    (∃ g', Run (es ++ [.admitNext c]) g') ↔ es.inProgress = [] ∧ es.waiting.head? = some c := by
  constructor
  · rintro ⟨g', hrun'⟩
    obtain ⟨g₀, hrun₀, -, hstep⟩ := hrun'.of_snoc
    obtain ⟨w, rest, hnone, hqueue, rfl, -⟩ := hstep.of_admitNext
    refine ⟨?_, ?_⟩
    · rw [← hrun₀.inOrder.running, hnone]
      rfl
    · rw [hrun₀.inOrder.waiting_eq hqueue]
      rfl
  · rintro ⟨hidle, hfirst⟩
    have hnone : g.running = none := by
      have hrunning := hrun.inOrder.running
      rw [hidle] at hrunning
      simpa using hrunning
    rw [← hrun.inOrder.queue, List.head?_map] at hfirst
    obtain ⟨w, hhead, rfl⟩ := Option.map_eq_some_iff.mp hfirst
    obtain ⟨rest, hqueue⟩ := List.head?_eq_some_iff.mp hhead
    exact ⟨_, hrun.snoc trivial (step_admitNext hnone hqueue)⟩

/-- **A gate admits one caller at a time, in the order of their arrival, and sees to
the end what it has admitted.** In every run at most one program is in progress, and
what is asked or ended is that one; the admitted callers were admitted in the order
in which they came; the program of each of them has ended, after it was asked all its
questions, or is in progress and can be brought to its end without anybody else,
whether or not its caller has left; a caller who leaves before being admitted is never
admitted, asked or ended; and a caller can be admitted exactly if nothing is in
progress and the caller is the first of those who wait, however the programs before
have ended. -/
theorem Run.one_at_a_time_in_order (hrun : Run es g) :
    (es.inProgress.length ≤ 1 ∧
      (∀ (before later : Log Q A T E) (c : String) (x : Exchange Q A),
        es = before ++ .work c x :: later → before.inProgress = [c]) ∧
      ∀ (before later : Log Q A T E) (c : String) (ending : Ending T E),
        es = before ++ .finish c ending :: later → before.inProgress = [c]) ∧
    (es.admissions.Sublist es.arrivals ∧ es.arrivals.Nodup) ∧
    (∀ c ∈ es.admissions, ∃ p, .arrive c p ∈ es ∧
      ((∃ ending, .finish c ending ∈ es ∧ p.Answered (es.worksOf c) (.done ending)) ∨
        c ∈ es.inProgress ∧ ∀ answer : (q : Q) → A q, ∃ xs ending g',
          Run (es ++ xs.map (.work c) ++ [.finish c ending]) g' ∧
          (∀ x ∈ xs, x.answer = answer x.question) ∧
          p.Answered (es.worksOf c ++ xs) (.done ending))) ∧
    (∀ (before later : Log Q A T E) (c : String),
      es = before ++ .leave c :: later → c ∉ before.admissions →
        c ∉ es.admissions ∧ es.worksOf c = [] ∧ c ∉ es.endings) ∧
    ∀ c, (∃ g', Run (es ++ [.admitNext c]) g') ↔
      es.inProgress = [] ∧ es.waiting.head? = some c := by
  have horder : InOrder es g := hrun.inOrder
  refine ⟨⟨hrun.inProgress_length_le, ?_, ?_⟩, ⟨?_, horder.nodup⟩, ?_, ?_, ?_⟩
  · rintro before later c x rfl
    exact hrun.inProgress_of_work
  · rintro before later c ending rfl
    exact hrun.inProgress_of_finish
  · exact (List.sublist_append_left _ _).trans horder.order
  · exact fun c hc => hrun.ended_or_going_on hc
  · rintro before later c hlog hc
    have hlog' : es = before ++ [.leave c] ++ later := by simp [hlog]
    have hnever : c ∉ es.admissions := by
      rw [hlog'] at hrun ⊢
      exact hrun.not_admitted_of_left (by simp) (by simpa using hc)
    exact ⟨hnever, hrun.inFull.worksOf_eq_nil hnever, fun h => hnever (horder.ended h)⟩
  · exact fun c => hrun.admitNext_iff

end Agreement

/-! ### A program that breaks off -/

/-- It asks for one bit and breaks off. -/
def breaking : Program Unit (fun _ => Bool) (Ending Unit Unit) :=
  .ask () fun _ => .done (.brokeOff "out of bounds")

/-- Two of the three callers leave, the first after being admitted, the second
before; then the first one's program breaks off. -/
def breakdown : Log Unit (fun _ => Bool) Unit Unit :=
  [.arrive "a" breaking, .arrive "b" breaking, .arrive "c" breaking, .admitNext "a", .leave "a",
    .leave "b", .work "a" ⟨(), true⟩, .finish "a" (.brokeOff "out of bounds")]

/-- Then the third, who is still waiting, can be admitted. -/
theorem one_at_a_time_in_order_ordinary :
    Run breakdown ⟨[⟨"c", breaking⟩], none⟩ ∧ breakdown.admissions = ["a"] ∧
      breakdown.inProgress.length ≤ 1 ∧
      (∃ p, .arrive "a" p ∈ breakdown ∧ ∃ ending, .finish "a" ending ∈ breakdown ∧
        p.Answered (breakdown.worksOf "a") (.done ending)) ∧
      "b" ∉ breakdown.admissions ∧ ∃ g', Run (breakdown ++ [.admitNext "c"]) g' := by
  have harrived : Run [.arrive "a" breaking, .arrive "b" breaking, .arrive "c" breaking] _ :=
    ((Run.nobody.snoc (by decide) (.arrive _ "a" breaking)).snoc (by decide)
      (.arrive _ "b" breaking)).snoc (by decide) (.arrive _ "c" breaking)
  have hadmitted := harrived.snoc (e := .admitNext "a") (by decide)
    (step_admitNext (w := ⟨"a", breaking⟩) rfl rfl)
  have hleft := (hadmitted.snoc (by decide) (.leave _ "a")).snoc (by decide) (.leave _ "b")
  have hworked := hleft.snoc (e := .work "a" ⟨(), true⟩) (by decide) (step_work rfl fun _ => true)
  have hrun : Run breakdown ⟨[⟨"c", breaking⟩], none⟩ :=
    hworked.snoc (e := .finish "a" _) (by decide) (step_finish rfl)
  obtain ⟨⟨hone, -⟩, -, hfull, hgone, hnext⟩ := hrun.one_at_a_time_in_order
  refine ⟨hrun, rfl, hone, ?_, ?_, (hnext "c").mpr ⟨by decide, by decide⟩⟩
  · obtain ⟨p, hp, hended | ⟨hgoing, -⟩⟩ := hfull "a" (by decide)
    · exact ⟨p, hp, hended⟩
    · exact absurd hgoing (by decide)
  · exact (hgone (breakdown.take 5) _ "b" rfl (by decide)).1

end Gate

end SettingProfiles
