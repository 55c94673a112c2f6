import LinuxOddsAndEnds.Foundation.Machine
import LinuxOddsAndEnds.Foundation.Resources
import Mathlib.Logic.Function.Basic

/-!
# Code and its callbacks

A piece of code sets up and tears down resources and arms callbacks: timers, work, entry
points. A callback that is armed may be called at any time, beside the code, and uses some of
the resources; it may arm itself again. To cancel a callback is to wait until it has returned
and to see that it is not called any more.

Whether every run keeps to what is set up can be read off the code: nothing may be torn down
that an armed callback uses, and nothing armed before what it uses is set up. The check is
exact, because the callback may be called as late as it can.
-/

namespace LinuxOddsAndEnds.Foundation

inductive CodeOp (C R : Type*) where
  | event (e : ResourceEvent R)
  | arm (c : C)
  | cancel (c : C)

inductive CallbackOp (R : Type*) where
  | use (r : R)
  | rearm
  deriving DecidableEq

/-- What is left of the code, the callbacks that may be called, and what is left of those that
run. -/
structure CodeState (C R : Type*) where
  rest : List (CodeOp C R)
  armed : C → Bool
  running : C → Option (List (CallbackOp R))

inductive CodeAction (C : Type*) where
  | code
  | call (c : C)
  | callback (c : C)

def CodeState.start {C R : Type*} (ops : List (CodeOp C R)) : CodeState C R :=
  ⟨ops, fun _ => false, fun _ => none⟩

variable {C R : Type*} [DecidableEq C]

def withCallbacks (body : C → List (CallbackOp R)) :
    Machine (CodeState C R) (CodeAction C) (ResourceEvent R)
  | s, .code =>
    match s.rest with
    | [] => none
    | .event e :: rest => some ({ s with rest := rest }, [e])
    | .arm c :: rest => some ({ s with rest := rest, armed := Function.update s.armed c true }, [])
    | .cancel c :: rest =>
      if (s.running c).isNone then
        some ({ s with rest := rest, armed := Function.update s.armed c false }, [])
      else none
  | s, .call c =>
    if s.armed c ∧ (s.running c).isNone then
      some ({ s with
        armed := Function.update s.armed c false
        running := Function.update s.running c (some (body c)) }, [])
    else none
  | s, .callback c =>
    match s.running c with
    | none => none
    | some [] => some ({ s with running := Function.update s.running c none }, [])
    | some (.use r :: ops) =>
      some ({ s with running := Function.update s.running c (some ops) }, [.use r])
    | some (.rearm :: ops) =>
      some ({ s with
        armed := Function.update s.armed c true
        running := Function.update s.running c (some ops) }, [])

section Check

variable (body : C → List (CallbackOp R)) (held : R → Bool) (live : C → Bool)

/-- What the next operation may be, given what is set up and which callbacks may still be
called or run. -/
def CodeOp.Allowed : CodeOp C R → Prop
  | .event (.acquire r) => held r = false
  | .event (.use r) => held r = true
  | .event (.release r) => held r = true ∧ ∀ c, live c = true → .use r ∉ body c
  | .arm c => ∀ r, .use r ∈ body c → held r = true
  | .cancel _ => True

def CodeOp.heldAfter [DecidableEq R] : CodeOp C R → R → Bool
  | .event e, r => e.holds r (held r)
  | _, r => held r

def CodeOp.liveAfter : CodeOp C R → C → Bool
  | .arm c => Function.update live c true
  | .cancel c => Function.update live c false
  | .event _ => live

def Sound [DecidableEq R] : (R → Bool) → (C → Bool) → List (CodeOp C R) → Prop
  | _, _, [] => True
  | held, live, op :: ops =>
    op.Allowed body held live ∧ Sound (op.heldAfter held) (op.liveAfter live) ops

/-- What is set up after some operations. -/
def heldAfter [DecidableEq R] (ops : List (CodeOp C R)) : R → Bool :=
  ops.foldl (fun held op => op.heldAfter held) held

/-- Which callbacks may be called or run after some operations. -/
def liveAfter (ops : List (CodeOp C R)) : C → Bool :=
  ops.foldl (fun live op => op.liveAfter live) live

theorem liveAfter_append (ops ops' : List (CodeOp C R)) :
    liveAfter live (ops ++ ops') = liveAfter (liveAfter live ops) ops' := List.foldl_append

omit [DecidableEq C] in
theorem heldAfter_append [DecidableEq R] (ops ops' : List (CodeOp C R)) :
    heldAfter held (ops ++ ops') = heldAfter (heldAfter held ops) ops' := List.foldl_append

theorem sound_append [DecidableEq R] (ops ops' : List (CodeOp C R)) :
    Sound body held live (ops ++ ops') ↔ Sound body held live ops ∧
      Sound body (heldAfter held ops) (liveAfter live ops) ops' := by
  induction ops generalizing held live with
  | nil => simp [Sound, heldAfter, liveAfter]
  | cons op ops ih => rw [List.cons_append, Sound, Sound, ih, and_assoc]; rfl

end Check

variable [DecidableEq R] {body : C → List (CallbackOp R)} {s s' : CodeState C R}
  {tr seen pre : List (ResourceEvent R)} {live : C → Bool} {a : CodeAction C}

section Safe

/-- The check of the rest succeeds from what is set up, the callbacks that are armed or run
are accounted for, and what they use is set up. -/
structure Covered (body : C → List (CallbackOp R)) (s : CodeState C R)
    (tr : List (ResourceEvent R)) (live : C → Bool) : Prop where
  lawful : Lawful tr
  sound : Sound body (fun r => held r tr) live s.rest
  armed : ∀ c, s.armed c = true → live c = true
  running : ∀ c ops, s.running c = some ops → live c = true ∧ ∀ op ∈ ops, op ∈ body c
  uses : ∀ c, live c = true → ∀ r, .use r ∈ body c → held r tr = true

theorem covered_start {ops : List (CodeOp C R)}
    (h : Sound body (fun _ => false) (fun _ => false) ops) :
    Covered body (.start ops) [] fun _ => false where
  lawful := trivial
  sound := h
  armed := by simp [CodeState.start]
  running := by simp [CodeState.start]
  uses := by simp

omit [DecidableEq C] in
theorem heldAfter_event (tr : List (ResourceEvent R)) (e : ResourceEvent R) :
    (CodeOp.event e : CodeOp C R).heldAfter (fun r => held r tr) =
      fun r => held r (tr ++ [e]) := by
  funext r
  rw [CodeOp.heldAfter, held_concat]

theorem Covered.event {e : ResourceEvent R} {rest : List (CodeOp C R)}
    (h : Covered body s tr live) (hrest : s.rest = .event e :: rest) :
    Covered body { s with rest := rest } (tr ++ [e]) live := by
  have hsound := h.sound
  rw [hrest, Sound, heldAfter_event] at hsound
  obtain ⟨hallowed, hsound⟩ := hsound
  refine ⟨h.lawful.append ⟨?_, trivial⟩, hsound, h.armed, h.running, fun c hc r hr => ?_⟩
  · cases e with
    | acquire r => exact hallowed
    | use r => exact hallowed
    | release r => exact hallowed.1
  · have hheld := h.uses c hc r hr
    rw [held_concat, hheld]
    cases e with
    | acquire r' => simp [holds_acquire]
    | use r' => rfl
    | release r' =>
      have hne : r' ≠ r := by
        rintro rfl
        exact hallowed.2 c hc hr
      rw [holds_release, if_neg hne]

theorem Covered.arm {c : C} {rest : List (CodeOp C R)} (h : Covered body s tr live)
    (hrest : s.rest = .arm c :: rest) :
    Covered body { s with rest := rest, armed := Function.update s.armed c true } tr
      (Function.update live c true) := by
  have hsound := h.sound
  rw [hrest, Sound] at hsound
  have hlive : ∀ c', live c' = true → Function.update live c true c' = true := by
    intro c' hc'
    by_cases hsame : c' = c
    · rw [hsame, Function.update_self]
    · rw [Function.update_of_ne hsame, hc']
  refine ⟨h.lawful, hsound.2, fun c' hc' => ?_, fun c' ops hops => ?_, fun c' hc' r hr => ?_⟩
  · dsimp only at hc'
    by_cases hsame : c' = c
    · rw [hsame, Function.update_self]
    · rw [Function.update_of_ne hsame] at hc'
      exact hlive c' (h.armed c' hc')
  · exact ⟨hlive c' (h.running c' ops hops).1, (h.running c' ops hops).2⟩
  · by_cases hsame : c' = c
    · subst hsame
      exact hsound.1 r hr
    · rw [Function.update_of_ne hsame] at hc'
      exact h.uses c' hc' r hr

theorem Covered.cancel {c : C} {rest : List (CodeOp C R)} (h : Covered body s tr live)
    (hrest : s.rest = .cancel c :: rest) (hidle : s.running c = none) :
    Covered body { s with rest := rest, armed := Function.update s.armed c false } tr
      (Function.update live c false) := by
  have hsound := h.sound
  rw [hrest, Sound] at hsound
  refine ⟨h.lawful, hsound.2, fun c' hc' => ?_, fun c' ops hops => ?_, fun c' hc' r hr => ?_⟩
  · dsimp only at hc'
    by_cases hsame : c' = c
    · rw [hsame, Function.update_self] at hc'
      cases hc'
    · rw [Function.update_of_ne hsame] at hc' ⊢
      exact h.armed c' hc'
  · have hsame : c' ≠ c := by
      rintro rfl
      rw [hidle] at hops
      cases hops
    rw [Function.update_of_ne hsame]
    exact h.running c' ops hops
  · by_cases hsame : c' = c
    · rw [hsame, Function.update_self] at hc'
      cases hc'
    · rw [Function.update_of_ne hsame] at hc'
      exact h.uses c' hc' r hr

theorem Covered.callback {c : C} {armed : Bool} {ops : Option (List (CallbackOp R))}
    (h : Covered body s tr live) (hlive : live c = true)
    (hops : ∀ l, ops = some l → ∀ op ∈ l, op ∈ body c) :
    Covered body { s with
      armed := Function.update s.armed c armed
      running := Function.update s.running c ops } tr live := by
  refine ⟨h.lawful, h.sound, fun c' hc' => ?_, fun c' l hl => ?_, h.uses⟩
  · dsimp only at hc'
    by_cases hsame : c' = c
    · rw [hsame, hlive]
    · rw [Function.update_of_ne hsame] at hc'
      exact h.armed c' hc'
  · dsimp only at hl
    by_cases hsame : c' = c
    · subst hsame
      rw [Function.update_self] at hl
      exact ⟨hlive, hops l hl⟩
    · rw [Function.update_of_ne hsame] at hl
      exact h.running c' l hl

theorem Covered.use {r : R} (h : Covered body s tr live) (hr : held r tr = true) :
    Covered body s (tr ++ [ResourceEvent.use r]) live where
  lawful := h.lawful.append ⟨hr, trivial⟩
  sound := by simpa using h.sound
  armed := h.armed
  running := h.running
  uses := by simpa using h.uses

theorem sound_events {live : C → Bool} (hlive : ∀ c, live c = false)
    (pre events : List (ResourceEvent R)) :
    Sound body (fun r => held r pre) live (events.map .event) ↔
      JudgedFrom LawfulAfter pre events := by
  induction events generalizing pre with
  | nil => exact Iff.rfl
  | cons e events ih =>
    rw [List.map_cons, Sound, judgedFrom_cons, heldAfter_event, ← ih]
    refine and_congr_left fun _ => ?_
    cases e <;> simp [CodeOp.Allowed, LawfulAfter, hlive]

omit [DecidableEq C] in
theorem heldAfter_events (pre events : List (ResourceEvent R)) :
    heldAfter (fun r => held r pre) (events.map (CodeOp.event : _ → CodeOp C R)) =
      fun r => held r (pre ++ events) := by
  induction events generalizing pre with
  | nil => simp [heldAfter]
  | cons e events ih =>
    have hrest := ih (pre ++ [e])
    rw [← heldAfter_event (C := C), List.append_assoc] at hrest
    exact hrest

omit [DecidableEq R] in
theorem liveAfter_events (live : C → Bool) (events : List (ResourceEvent R)) :
    liveAfter live (events.map (CodeOp.event : _ → CodeOp C R)) = live := by
  induction events with
  | nil => rfl
  | cons e events ih => exact ih

theorem Covered.step (h : Covered body s tr live)
    (hs : withCallbacks body s a = some (s', seen)) :
    ∃ live', Covered body s' (tr ++ seen) live' := by
  cases a with
  | code =>
    cases hrest : s.rest with
    | nil => simp [withCallbacks, hrest] at hs
    | cons op rest =>
      cases op with
      | event e =>
        simp only [withCallbacks, hrest, Option.some.injEq, Prod.mk.injEq] at hs
        obtain ⟨rfl, rfl⟩ := hs
        exact ⟨live, h.event hrest⟩
      | arm c =>
        simp only [withCallbacks, hrest, Option.some.injEq, Prod.mk.injEq] at hs
        obtain ⟨rfl, rfl⟩ := hs
        rw [List.append_nil]
        exact ⟨_, h.arm hrest⟩
      | cancel c =>
        simp only [withCallbacks, hrest] at hs
        split_ifs at hs with hidle
        obtain ⟨rfl, rfl⟩ := Prod.mk.inj (Option.some.inj hs)
        rw [List.append_nil]
        exact ⟨_, h.cancel hrest (Option.isNone_iff_eq_none.mp hidle)⟩
  | call c =>
    rw [withCallbacks] at hs
    split_ifs at hs with hcall
    obtain ⟨rfl, rfl⟩ := Prod.mk.inj (Option.some.inj hs)
    rw [List.append_nil]
    refine ⟨live, h.callback (h.armed c hcall.1) ?_⟩
    rintro l ⟨⟩ op hop
    exact hop
  | callback c =>
    cases hrun : s.running c with
    | none => simp [withCallbacks, hrun] at hs
    | some ops =>
      obtain ⟨hlive, hops⟩ := h.running c ops hrun
      have hsame : Function.update s.armed c (s.armed c) = s.armed := Function.update_eq_self ..
      cases ops with
      | nil =>
        simp only [withCallbacks, hrun, Option.some.injEq, Prod.mk.injEq] at hs
        obtain ⟨rfl, rfl⟩ := hs
        rw [List.append_nil, ← hsame]
        exact ⟨live, h.callback hlive (by simp)⟩
      | cons op ops =>
        have htail : ∀ l, some ops = some l → ∀ op' ∈ l, op' ∈ body c := by
          rintro l ⟨⟩ op' hop'
          exact hops op' (List.mem_cons_of_mem op hop')
        cases op with
        | use r =>
          simp only [withCallbacks, hrun, Option.some.injEq, Prod.mk.injEq] at hs
          obtain ⟨rfl, rfl⟩ := hs
          rw [← hsame]
          exact ⟨live, (h.callback hlive htail).use (h.uses c hlive r (hops _ List.mem_cons_self))⟩
        | rearm =>
          simp only [withCallbacks, hrun, Option.some.injEq, Prod.mk.injEq] at hs
          obtain ⟨rfl, rfl⟩ := hs
          rw [List.append_nil]
          exact ⟨live, h.callback hlive htail⟩

theorem Covered.of_reaches {ops : List (CodeOp C R)}
    (h : Sound body (fun _ => false) (fun _ => false) ops)
    (hreach : Reaches (withCallbacks body) (.start ops) s tr) :
    ∃ live, Covered body s tr live := by
  induction hreach with
  | start => exact ⟨_, covered_start h⟩
  | next _ hs ih =>
    obtain ⟨live, hlive⟩ := ih
    exact hlive.step hs

end Safe

section Exact

variable {c : C} {r : R} {op : CodeOp C R} {ops : List (CodeOp C R)}

def CodeOp.events : CodeOp C R → List (ResourceEvent R)
  | .event e => [e]
  | _ => []

omit [DecidableEq C] in
theorem heldAfter_op (pre : List (ResourceEvent R)) (op : CodeOp C R) :
    op.heldAfter (fun r => held r pre) = fun r => held r (pre ++ op.events) := by
  cases op with
  | event e => exact heldAfter_event pre e
  | arm c | cancel c => simp [CodeOp.events]; rfl

omit [DecidableEq R] in
/-- While no callback runs, nothing holds the code up. -/
theorem exists_code_step (body : C → List (CallbackOp R)) (hrest : s.rest = op :: ops)
    (hidle : ∀ c, s.running c = none) :
    ∃ s', withCallbacks body s .code = some (s', op.events) ∧ s'.rest = ops ∧
      s'.armed = op.liveAfter s.armed ∧ ∀ c, s'.running c = none := by
  refine ⟨⟨ops, op.liveAfter s.armed, s.running⟩, ?_, rfl, rfl, hidle⟩
  cases op with
  | event e | arm c =>
    simp only [withCallbacks, hrest]
    rfl
  | cancel c =>
    simp only [withCallbacks, hrest, hidle c, Option.isNone_none, if_true]
    rfl

def GoesBad (body : C → List (CallbackOp R)) (s : CodeState C R) (pre : List (ResourceEvent R)) :
    Prop :=
  ∃ s' tr, Reaches (withCallbacks body) s s' tr ∧ ¬Lawful (pre ++ tr)

theorem GoesBad.before (h : GoesBad body s' (pre ++ seen))
    (hs : withCallbacks body s a = some (s', seen)) : GoesBad body s pre := by
  obtain ⟨t, tr, ht, hbad⟩ := h
  refine ⟨t, seen ++ tr, (Reaches.single hs).trans ht, ?_⟩
  rwa [← List.append_assoc]

theorem goesBad_of_not_allowed {e : ResourceEvent R}
    (hs : withCallbacks body s a = some (s', [e])) (he : ¬LawfulAfter pre e) :
    GoesBad body s pre := by
  refine ⟨s', [e], Reaches.single hs, ?_⟩
  exact not_judged he

theorem goesBad_of_running {uses : List (CallbackOp R)} (hrun : s.running c = some uses)
    (hmem : .use r ∈ uses) (hfree : held r pre = false) : GoesBad body s pre := by
  induction uses generalizing s pre with
  | nil => cases hmem
  | cons op uses ih =>
    cases op with
    | use r' =>
      have hs : withCallbacks body s (.callback c) = some
          ({ s with running := Function.update s.running c (some uses) }, [.use r']) := by
        simp only [withCallbacks, hrun]
      by_cases hr : r' = r
      · subst hr
        refine goesBad_of_not_allowed hs fun hlawful => ?_
        have hheld : held r' pre = true := hlawful
        rw [hfree] at hheld
        cases hheld
      · have hlater : .use r ∈ uses := by
          rcases List.mem_cons.mp hmem with heq | hlater
          · exact absurd (CallbackOp.use.inj heq).symm hr
          · exact hlater
        refine GoesBad.before (ih (Function.update_self ..) hlater ?_) hs
        rw [held_concat, holds_use, hfree]
    | rearm =>
      have hs : withCallbacks body s (.callback c) = some
          ({ s with
            armed := Function.update s.armed c true
            running := Function.update s.running c (some uses) }, []) := by
        simp only [withCallbacks, hrun]
      have hlater : .use r ∈ uses := by
        rcases List.mem_cons.mp hmem with heq | hlater
        · cases heq
        · exact hlater
      refine GoesBad.before (ih (Function.update_self ..) hlater ?_) hs
      rw [List.append_nil, hfree]

theorem goesBad_of_armed (harmed : s.armed c = true) (hidle : s.running c = none)
    (hmem : .use r ∈ body c) (hfree : held r pre = false) : GoesBad body s pre := by
  have hcall : s.armed c = true ∧ (s.running c).isNone = true := ⟨harmed, by rw [hidle]; rfl⟩
  have hs : withCallbacks body s (.call c) = some ({ s with
      armed := Function.update s.armed c false
      running := Function.update s.running c (some (body c)) }, []) := by
    rw [withCallbacks, if_pos hcall]
  refine GoesBad.before (goesBad_of_running (Function.update_self ..) hmem ?_) hs
  rw [List.append_nil, hfree]

/-- Where the check fails, the operation itself is bad or lets a callback be called too early
or too late. -/
theorem goesBad_of_not_allowed_op (hrest : s.rest = op :: ops) (hidle : ∀ c, s.running c = none)
    (hnot : ¬op.Allowed body (fun r => held r pre) s.armed) : GoesBad body s pre := by
  obtain ⟨s', hs, -, harmed, hidle'⟩ := exists_code_step body hrest hidle
  cases op with
  | event e =>
    cases e with
    | acquire r | use r => exact goesBad_of_not_allowed hs hnot
    | release r =>
      by_cases hheld : held r pre = true
      · have huser : ∃ c, s.armed c = true ∧ .use r ∈ body c := by
          by_contra hnone
          push Not at hnone
          exact hnot ⟨hheld, hnone⟩
        obtain ⟨c, hc, hmem⟩ := huser
        refine GoesBad.before (goesBad_of_armed ?_ (hidle' c) hmem ?_) hs
        · rw [harmed]
          exact hc
        · simp [CodeOp.events, holds_release]
      · exact goesBad_of_not_allowed hs hheld
  | arm c =>
    have huse : ∃ r, .use r ∈ body c ∧ held r pre = false := by
      by_contra hnone
      push Not at hnone
      exact hnot fun r hr => by simpa using hnone r hr
    obtain ⟨r, hmem, hfree⟩ := huse
    refine GoesBad.before (goesBad_of_armed ?_ (hidle' c) hmem ?_) hs
    · rw [harmed]
      exact Function.update_self ..
    · simpa [CodeOp.events] using hfree
  | cancel c => exact absurd trivial hnot

theorem goesBad_of_not_sound (hrest : s.rest = ops) (hidle : ∀ c, s.running c = none)
    (hnot : ¬Sound body (fun r => held r pre) s.armed ops) : GoesBad body s pre := by
  induction ops generalizing s pre with
  | nil => exact absurd trivial hnot
  | cons op ops ih =>
    by_cases hallowed : op.Allowed body (fun r => held r pre) s.armed
    · obtain ⟨s', hs, hrest', harmed, hidle'⟩ := exists_code_step body hrest hidle
      refine GoesBad.before (ih hrest' hidle' ?_) hs
      rw [harmed, ← heldAfter_op]
      exact fun hsound => hnot ⟨hallowed, hsound⟩
    · exact goesBad_of_not_allowed_op hrest hidle hallowed

/-- The check is exact: it succeeds if every run acquires, uses and releases in order. -/
theorem lawful_iff_sound (body : C → List (CallbackOp R)) (ops : List (CodeOp C R)) :
    (∀ s tr, Reaches (withCallbacks body) (.start ops) s tr → Lawful tr) ↔
      Sound body (fun _ => false) (fun _ => false) ops := by
  constructor
  · intro h
    by_contra hnot
    have hbad : GoesBad body (.start ops) [] :=
      goesBad_of_not_sound rfl (fun _ => rfl) (by simpa [CodeState.start] using hnot)
    obtain ⟨s, tr, hreach, hunlawful⟩ := hbad
    exact hunlawful (h s tr hreach)
  · intro h s tr hreach
    obtain ⟨live, hcovered⟩ := Covered.of_reaches h hreach
    exact hcovered.lawful

end Exact

section Embedding

variable {C' R' : Type*} [DecidableEq C'] [DecidableEq R']

def CodeOp.map (f : C → C') (g : R → R') : CodeOp C R → CodeOp C' R'
  | .event e => .event (e.map g)
  | .arm c => .arm (f c)
  | .cancel c => .cancel (f c)

variable {f : C → C'} {g : R → R'} {held' : R' → Bool} {live' : C' → Bool}

omit [DecidableEq C] [DecidableEq C'] in
theorem heldAfter_map_apply (hg : Function.Injective g) (op : CodeOp C R) :
    (fun r => (op.map f g).heldAfter held' (g r)) = op.heldAfter fun r => held' (g r) := by
  funext r
  cases op with
  | event e => cases e <;> simp [CodeOp.map, CodeOp.heldAfter, ResourceEvent.map,
      ResourceEvent.holds, hg.eq_iff]
  | arm c | cancel c => rfl

omit [DecidableEq C] [DecidableEq C'] [DecidableEq R] in
theorem heldAfter_map_of_ne {r' : R'} (hr : ∀ r, g r ≠ r') (op : CodeOp C R) :
    (op.map f g).heldAfter held' r' = held' r' := by
  cases op with
  | event e => cases e <;> simp [CodeOp.map, CodeOp.heldAfter, ResourceEvent.map,
      ResourceEvent.holds, hr]
  | arm c | cancel c => rfl

omit [DecidableEq R] [DecidableEq R'] in
theorem liveAfter_map_apply (hf : Function.Injective f) (op : CodeOp C R) :
    (fun c => (op.map f g).liveAfter live' (f c)) = op.liveAfter fun c => live' (f c) := by
  funext c
  cases op with
  | event e => rfl
  | arm c' | cancel c' => simp [CodeOp.map, CodeOp.liveAfter, Function.update_apply, hf.eq_iff]

omit [DecidableEq C] [DecidableEq R] [DecidableEq R'] in
theorem liveAfter_map_of_ne {c' : C'} (hc : ∀ c, f c ≠ c') (op : CodeOp C R) :
    (op.map f g).liveAfter live' c' = live' c' := by
  cases op with
  | event e => rfl
  | arm c | cancel c =>
    simp [CodeOp.map, CodeOp.liveAfter, Function.update_of_ne (hc c).symm]

omit [DecidableEq C] [DecidableEq C'] in
theorem heldAfter_mapped (hg : Function.Injective g) (ops : List (CodeOp C R)) :
    (fun r => heldAfter held' (ops.map (CodeOp.map f g)) (g r)) =
      heldAfter (fun r => held' (g r)) ops := by
  induction ops generalizing held' with
  | nil => rfl
  | cons op ops ih =>
    rw [List.map_cons]
    exact ih.trans (congrArg (heldAfter · ops) (heldAfter_map_apply hg op))

omit [DecidableEq C] [DecidableEq R] [DecidableEq C'] in
theorem heldAfter_mapped_of_ne {r' : R'} (hr : ∀ r, g r ≠ r') (ops : List (CodeOp C R)) :
    heldAfter held' (ops.map (CodeOp.map f g)) r' = held' r' := by
  induction ops generalizing held' with
  | nil => rfl
  | cons op ops ih =>
    rw [List.map_cons]
    exact ih.trans (heldAfter_map_of_ne hr op)

omit [DecidableEq R] [DecidableEq R'] in
theorem liveAfter_mapped (hf : Function.Injective f) (ops : List (CodeOp C R)) :
    (fun c => liveAfter live' (ops.map (CodeOp.map f g)) (f c)) =
      liveAfter (fun c => live' (f c)) ops := by
  induction ops generalizing live' with
  | nil => rfl
  | cons op ops ih =>
    rw [List.map_cons]
    exact ih.trans (congrArg (liveAfter · ops) (liveAfter_map_apply hf op))

omit [DecidableEq C] [DecidableEq R] [DecidableEq R'] in
theorem liveAfter_mapped_of_ne {c' : C'} (hc : ∀ c, f c ≠ c') (ops : List (CodeOp C R)) :
    liveAfter live' (ops.map (CodeOp.map f g)) c' = live' c' := by
  induction ops generalizing live' with
  | nil => rfl
  | cons op ops ih =>
    rw [List.map_cons]
    exact ih.trans (liveAfter_map_of_ne hc op)

theorem sound_mapped {body' : C' → List (CallbackOp R')} (hf : Function.Injective f)
    (hg : Function.Injective g)
    (hbody : ∀ c r, .use (g r) ∈ body' (f c) ↔ .use r ∈ body c)
    (hothers : ∀ c' r, .use (g r) ∈ body' c' → ∃ c, f c = c')
    (hheld : ∀ c r', .use r' ∈ body' (f c) → (∀ r, g r ≠ r') → held' r' = true)
    (ops : List (CodeOp C R)) :
    Sound body' held' live' (ops.map (CodeOp.map f g)) ↔
      Sound body (fun r => held' (g r)) (fun c => live' (f c)) ops := by
  induction ops generalizing held' live' with
  | nil => rfl
  | cons op ops ih =>
    have hallowed : (op.map f g).Allowed body' held' live' ↔
        op.Allowed body (fun r => held' (g r)) fun c => live' (f c) := by
      cases op with
      | event e =>
        cases e with
        | acquire r | use r => rfl
        | release r =>
          refine and_congr_right fun _ => ⟨fun h c hc => ?_, fun h c' hc' hmem => ?_⟩
          · rw [← hbody]
            exact h (f c) hc
          · obtain ⟨c, rfl⟩ := hothers c' r hmem
            exact h c hc' ((hbody c r).mp hmem)
      | arm c =>
        refine ⟨fun h r hr => h (g r) ((hbody c r).mpr hr), fun h r' hr' => ?_⟩
        by_cases hr : ∃ r, g r = r'
        · obtain ⟨r, rfl⟩ := hr
          exact h r ((hbody c r).mp hr')
        · exact hheld c r' hr' fun r heq => hr ⟨r, heq⟩
      | cancel c => rfl
    rw [List.map_cons, Sound, Sound, hallowed, ← heldAfter_map_apply hg, ← liveAfter_map_apply hf,
      ih]
    intro c r' hr' hne
    rw [heldAfter_map_of_ne hne]
    exact hheld c r' hr' hne

end Embedding

end LinuxOddsAndEnds.Foundation
