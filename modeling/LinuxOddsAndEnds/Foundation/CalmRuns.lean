import LinuxOddsAndEnds.Foundation.Interrupts

/-!
# Calm runs of a driver

What a plan has to say about a driver, that calm runs use what is set up and nothing
else, and that a run that stops being calm can be continued to a bad use.
-/

namespace LinuxOddsAndEnds.Foundation

variable {M A L R W : Type*} [DecidableEq L] [DecidableEq R]

/-- Whether `r` is set up after the step, if `b` tells so of before. -/
def ModuleOp.upAfter (r : R) (b : Bool) : ModuleOp L R → Bool
  | .acquire r' => if r' = r then true else b
  | .release r' => if r' = r then false else b
  | _ => b

/-- Whether `l` may fire after the step, if `b` tells so of before. -/
def ModuleOp.mayFireAfter (l : L) (b : Bool) : ModuleOp L R → Bool
  | .freeIrq l' => if l' = l then false else b
  | _ => b

/-- What is set up at a point of the module code, whether that is everything, which lines
have or may still get their interrupt, and what the work may still use. -/
structure Plan (M L R W : Type*) where
  up : M → R → Bool
  ready : M → Bool
  mayFire : M → L → Bool
  mayUse : W → R → Bool

/-- The plan describes the driver, which tears down only before it is ready or after all
lines are freed. -/
structure Plan.Describes (P : Plan M L R W) (D : Driver M A L R W) : Prop where
  ready_iff : ∀ m, P.ready m = true ↔ ∀ r, P.up m r = true
  up : ∀ {m answer m' op}, D.module m answer = some (m', op) →
    ∀ r, P.up m' r = op.upAfter r (P.up m r)
  mayFire : ∀ {m answer m' op}, D.module m answer = some (m', op) →
    ∀ l, P.mayFire m' l = op.mayFireAfter l (P.mayFire m l)
  requestIrq : ∀ {m answer m' l}, D.module m answer = some (m', .requestIrq l) →
    P.mayFire m l = true
  release : ∀ {m answer m' r}, D.module m answer = some (m', .release r) →
    P.ready m = false ∨ ∀ l, P.mayFire m l = false
  mayUse_here : ∀ w, P.mayUse w (D.workUses w) = true
  mayUse_next : ∀ {w answer w' r}, D.workNext w answer = some w' → P.mayUse w' r = true →
    P.mayUse w r = true

namespace Plan

variable {P : Plan M L R W} {D : Driver M A L R W} {s s' : DriverState M L R W}
  {tr seen : List (ResourceEvent R)} {a : DriverAction A L}

def workNeeds (P : Plan M L R W) (s : DriverState M L R W) (r : R) : Bool :=
  s.pending || match s.worker with
    | none => false
    | some w => P.mayUse w r

/-- No interrupt gets through before all is set up, and nothing is torn down that the
work may still use. -/
def calm (P : Plan M L R W) (D : Driver M A L R W) (s : DriverState M L R W) :
    DriverAction A L → Bool
  | .interrupt _ early => early || P.ready s.module
  | .module answer =>
    match D.module s.module answer with
    | some (_, .release r) => !P.workNeeds s r
    | _ => true
  | _ => true

/-- Whatever is active finds what it may use set up. -/
structure Inv (P : Plan M L R W) (s : DriverState M L R W) (tr : List (ResourceEvent R)) :
    Prop where
  sound : UsesHeld tr
  held_eq : ∀ r, held r tr = P.up s.module r
  irq : ∀ l, s.irqs l = true → P.mayFire s.module l = true
  handler : ∀ l uses, s.handlers l = some uses → s.irqs l = true ∧ P.ready s.module = true
  pending : s.pending = true → P.ready s.module = true
  worker : ∀ w, s.worker = some w → ∀ r, P.mayUse w r = true → P.up s.module r = true
  late : ∀ w, s.worker = some w → P.ready s.module = true ∨ ∀ l, P.mayFire s.module l = false

omit [DecidableEq L] in
theorem inv_start (m : M) (hm : ∀ r, P.up m r = false) : P.Inv (DriverState.start m) [] where
  sound := usesHeld_nil
  held_eq r := (hm r).symm
  irq _ h := absurd h Bool.false_ne_true
  handler _ _ h := by simp [DriverState.start] at h
  pending h := absurd h Bool.false_ne_true
  worker _ h := by simp [DriverState.start] at h
  late _ h := by simp [DriverState.start] at h

omit [DecidableEq L] in
theorem Inv.use (h : P.Inv s tr) {r : R} (hr : P.up s.module r = true) :
    UsesHeld (tr ++ [ResourceEvent.use r]) ∧
      ∀ r', held r' (tr ++ [ResourceEvent.use r]) = P.up s.module r' :=
  ⟨h.sound.use (by rw [h.held_eq, hr]), fun r' => by rw [held_concat, holds_use, h.held_eq]⟩

theorem Inv.moveModule (hd : P.Describes D) (h : P.Inv s tr) {answer : A} {m : M}
    {op : ModuleOp L R} (code : D.module s.module answer = some (m, op))
    (hop : ∀ r, op ≠ .release r) (hline : ∀ l, op ≠ .freeIrq l) (hsound : UsesHeld (tr ++ seen))
    (hheld : ∀ r, held r (tr ++ seen) = op.upAfter r (held r tr)) :
    P.Inv { s with module := m } (tr ++ seen) := by
  have hup : ∀ r, P.up s.module r = true → P.up m r = true := by
    intro r hr
    rw [hd.up code r, hr]
    cases op with
    | acquire r' => simp [ModuleOp.upAfter]
    | release r' => exact absurd rfl (hop r')
    | _ => rfl
  have hfire : ∀ l, P.mayFire m l = P.mayFire s.module l := by
    intro l
    rw [hd.mayFire code l]
    cases op with
    | freeIrq l' => exact absurd rfl (hline l')
    | _ => rfl
  have hready : P.ready s.module = true → P.ready m = true := by
    intro hr
    rw [hd.ready_iff] at hr ⊢
    exact fun r => hup r (hr r)
  exact
    { sound := hsound
      held_eq := fun r => by rw [hheld, h.held_eq, hd.up code r]
      irq := fun l hl => by rw [hfire]; exact h.irq l hl
      handler := fun l uses hl => ⟨(h.handler l uses hl).1, hready (h.handler l uses hl).2⟩
      pending := fun hp => hready (h.pending hp)
      worker := fun w hw r hr => hup r (h.worker w hw r hr)
      late := fun w hw => (h.late w hw).imp hready fun hall l => by rw [hfire]; exact hall l }

theorem Inv.release (hd : P.Describes D) (h : P.Inv s tr) {answer : A} {m : M} {r : R}
    (code : D.module s.module answer = some (m, .release r)) (hneeds : P.workNeeds s r = false) :
    P.Inv { s with module := m } (tr ++ [ResourceEvent.release r]) := by
  simp only [workNeeds, Bool.or_eq_false_iff] at hneeds
  obtain ⟨hpending, hworker⟩ := hneeds
  have hfire : ∀ l, P.mayFire m l = P.mayFire s.module l := fun l => hd.mayFire code l
  have hclosed := hd.release code
  have hidle : ∀ l uses, s.handlers l ≠ some uses := by
    intro l uses hl
    obtain ⟨hirq, hready⟩ := h.handler l uses hl
    rcases hclosed with hnot | hall
    · rw [hready] at hnot
      exact Bool.false_ne_true hnot.symm
    · exact Bool.false_ne_true ((hall l).symm.trans (h.irq l hirq))
  exact
    { sound := h.sound.other (by simp)
      held_eq := fun r' => by rw [held_concat, h.held_eq, hd.up code r']; rfl
      irq := fun l hl => by rw [hfire]; exact h.irq l hl
      handler := fun l uses hl => absurd hl (hidle l uses)
      pending := fun hp => absurd (hpending.symm.trans hp) Bool.false_ne_true
      worker := by
        intro w hw r' hr'
        have hne : r ≠ r' := by
          rintro rfl
          rw [hw] at hworker
          exact Bool.false_ne_true (hworker.symm.trans hr')
        rw [hd.up code r', ModuleOp.upAfter, if_neg hne]
        exact h.worker w hw r' hr'
      late := by
        intro w hw
        rcases hclosed with hnot | hall
        · rcases h.late w hw with hready | hall
          · exact absurd (hready.symm.trans hnot) Bool.false_ne_true.symm
          · exact Or.inr fun l => by rw [hfire]; exact hall l
        · exact Or.inr fun l => by rw [hfire]; exact hall l }

theorem Inv.stay (hd : P.Describes D) (h : P.Inv s tr) {answer : A} {m : M} {op : ModuleOp L R}
    (code : D.module s.module answer = some (m, op))
    (hop : op = .nothing ∨ op = .flush ∨ ∃ l, op = .requestIrq l) :
    P.Inv { s with module := m } tr := by
  rw [← List.append_nil tr]
  refine h.moveModule hd code ?_ ?_ ?_ ?_
  · rintro r rfl
    simp at hop
  · rintro l rfl
    simp at hop
  · rw [List.append_nil]
    exact h.sound
  · intro r
    rw [List.append_nil]
    rcases hop with rfl | rfl | ⟨l, rfl⟩ <;> rfl

theorem Inv.requestIrq (hd : P.Describes D) (h : P.Inv s tr) {answer : A} {m : M} {l : L}
    (code : D.module s.module answer = some (m, .requestIrq l)) :
    P.Inv { s with module := m, irqs := Function.update s.irqs l true } tr := by
  have hbase := h.stay hd code (Or.inr (Or.inr ⟨l, rfl⟩))
  refine { hbase with irq := ?_, handler := ?_ }
  · intro l' hl'
    dsimp only at hl' ⊢
    rw [Function.update_apply] at hl'
    split_ifs at hl' with heq
    · rw [heq, hd.mayFire code l]
      exact hd.requestIrq code
    · exact hbase.irq l' hl'
  · intro l' uses hl'
    obtain ⟨hfire, hready⟩ := hbase.handler l' uses hl'
    refine ⟨?_, hready⟩
    dsimp only
    rw [Function.update_apply]
    split_ifs
    · rfl
    · exact hfire

theorem Inv.freeIrq (hd : P.Describes D) (h : P.Inv s tr) {answer : A} {m : M} {l : L}
    (code : D.module s.module answer = some (m, .freeIrq l)) (hidle : s.handlers l = none) :
    P.Inv { s with module := m, irqs := Function.update s.irqs l false } tr := by
  have hup : ∀ r, P.up m r = P.up s.module r := fun r => hd.up code r
  have hready : P.ready s.module = true → P.ready m = true := by
    intro hr
    rw [hd.ready_iff] at hr ⊢
    exact fun r => (hup r).trans (hr r)
  have hother : ∀ l', l' ≠ l → P.mayFire m l' = P.mayFire s.module l' := by
    intro l' hne
    rw [hd.mayFire code l', ModuleOp.mayFireAfter, if_neg hne.symm]
  have hirq : ∀ l', Function.update s.irqs l false l' = true → l' ≠ l ∧ s.irqs l' = true := by
    intro l' hl'
    rw [Function.update_apply] at hl'
    split_ifs at hl' with heq
    exact ⟨heq, hl'⟩
  exact
    { sound := h.sound
      held_eq := fun r => by rw [h.held_eq, hup]
      irq := by
        intro l' hl'
        obtain ⟨hne, hfire⟩ := hirq l' hl'
        rw [hother l' hne]
        exact h.irq l' hfire
      handler := by
        intro l' uses hl'
        have hne : l' ≠ l := by
          rintro rfl
          rw [hidle] at hl'
          exact Option.some_ne_none uses hl'.symm
        obtain ⟨hfire, hr⟩ := h.handler l' uses hl'
        exact ⟨(Function.update_of_ne hne _ _).trans hfire, hready hr⟩
      pending := fun hp => hready (h.pending hp)
      worker := fun w hw r hr => (hup r).trans (h.worker w hw r hr)
      late := by
        intro w hw
        refine (h.late w hw).imp hready fun hall l' => ?_
        rw [hd.mayFire code l', ModuleOp.mayFireAfter, hall l', ite_self] }

theorem inv_step (hd : P.Describes D) (h : P.Inv s tr) (hcalm : P.calm D s a = true)
    (hs : D.machine s a = some (s', seen)) : P.Inv s' (tr ++ seen) := by
  cases Driver.step_of_machine hs with
  | nothing code =>
    rw [List.append_nil]
    exact h.stay hd code (Or.inl rfl)
  | acquire code =>
    refine h.moveModule hd code (by simp) (by simp)
      (h.sound.other (by simp)) fun r' => ?_
    rw [held_concat]
    rfl
  | release code =>
    simp only [calm, code, Bool.not_eq_true'] at hcalm
    exact h.release hd code hcalm
  | requestIrq code =>
    rw [List.append_nil]
    exact h.requestIrq hd code
  | freeIrq code hidle =>
    rw [List.append_nil]
    exact h.freeIrq hd code hidle
  | flush code =>
    rw [List.append_nil]
    exact h.stay hd code (Or.inr (Or.inl rfl))
  | early =>
    rw [List.append_nil]
    exact h
  | @interrupt l hirq =>
    rw [List.append_nil]
    refine { h with handler := ?_ }
    intro l' uses hl'
    dsimp only at hl'
    rw [Function.update_apply] at hl'
    split_ifs at hl' with heq
    · exact ⟨heq ▸ hirq, hcalm⟩
    · exact h.handler l' uses hl'
  | @handlerUse l r rest hrun =>
    obtain ⟨hfire, hready⟩ := h.handler l _ hrun
    obtain ⟨hsound, hheld⟩ := h.use ((hd.ready_iff _).mp hready r)
    refine { h with sound := hsound, held_eq := hheld, handler := ?_ }
    intro l' uses hl'
    dsimp only at hl'
    rw [Function.update_apply] at hl'
    split_ifs at hl' with heq
    · exact ⟨heq ▸ hfire, hready⟩
    · exact h.handler l' uses hl'
  | @schedule l hrun =>
    obtain ⟨-, hready⟩ := h.handler l _ hrun
    obtain ⟨hsound, hheld⟩ := h.use ((hd.ready_iff _).mp hready D.workItem)
    refine { h with sound := hsound, held_eq := hheld, handler := ?_, pending := fun _ => hready }
    intro l' uses hl'
    dsimp only at hl'
    rw [Function.update_apply] at hl'
    split_ifs at hl' with heq
    exact h.handler l' uses hl'
  | startWork hpending _ =>
    have hready := h.pending hpending
    have hall := (hd.ready_iff _).mp hready
    obtain ⟨hsound, hheld⟩ := h.use (hall D.workItem)
    exact { h with sound := hsound, held_eq := hheld
                   pending := fun hp => absurd hp Bool.false_ne_true
                   worker := fun _ _ r _ => hall r, late := fun _ _ => Or.inl hready }
  | @work w answer hrun =>
    have hneeds := h.worker w hrun
    obtain ⟨hsound, hheld⟩ := h.use (hneeds _ (hd.mayUse_here w))
    refine { h with sound := hsound, held_eq := hheld, worker := ?_, late := ?_ }
    · intro w' hw' r hr
      exact hneeds r (hd.mayUse_next hw' hr)
    · intro w' _
      exact h.late w hrun

theorem inv_of_calm (hd : P.Describes D) {m : M} (hm : ∀ r, P.up m r = false)
    (h : Reaches (D.machine.when (P.calm D)) (DriverState.start m) s tr) : P.Inv s tr := by
  refine Reaches.invariant (inv_start m hm) ?_ h
  intro s tr a s' seen hi hs
  obtain ⟨hcalm, hs⟩ := Machine.when_eq_some.mp hs
  exact inv_step hd hi hcalm hs

section Flushing

/-- No interrupt gets through before all is set up. -/
def afterReady (P : Plan M L R W) (s : DriverState M L R W) : DriverAction A L → Bool
  | .interrupt _ early => early || P.ready s.module
  | _ => true

/-- From a flush with all lines freed on, the driver is quiet, and only then does it tear
down what it had set up. -/
structure Flushes (P : Plan M L R W) (D : Driver M A L R W) (quiet : M → Bool) : Prop where
  closed : ∀ {m}, quiet m = true → ∀ l, P.mayFire m l = false
  enter : ∀ {m answer m' op}, D.module m answer = some (m', op) → quiet m' = true →
    quiet m = true ∨ op = .flush
  release : ∀ {m answer m' r}, D.module m answer = some (m', .release r) →
    quiet m = true ∨ P.ready m = false ∧ ∃ l, P.mayFire m l = true

variable {quiet : M → Bool}

omit [DecidableEq L] in
/-- A flushing driver has nothing pending or running when it tears down. -/
theorem calm_of_afterReady (hf : P.Flushes D quiet) (h : P.Inv s tr)
    (hquiet : quiet s.module = true → s.pending = false ∧ s.worker = none)
    (hlate : P.afterReady s a = true) : P.calm D s a = true := by
  cases a with
  | module answer =>
    rw [calm]
    split
    · next m r code =>
      have hidle : s.pending = false ∧ s.worker = none := by
        rcases hf.release code with hq | ⟨hnot, l, hl⟩
        · exact hquiet hq
        · constructor
          · apply Bool.eq_false_iff.mpr
            intro hp
            exact Bool.false_ne_true (hnot.symm.trans (h.pending hp))
          · cases hw : s.worker with
            | none => rfl
            | some w =>
              rcases h.late w hw with hready | hall
              · exact absurd (hnot.symm.trans hready) Bool.false_ne_true
              · exact absurd ((hall l).symm.trans hl) Bool.false_ne_true
      rw [workNeeds, hidle.1, hidle.2]
      rfl
    · rfl
  | interrupt l early => exact hlate
  | _ => rfl

theorem quiet_step (hf : P.Flushes D quiet) (h : P.Inv s tr)
    (hquiet : quiet s.module = true → s.pending = false ∧ s.worker = none)
    (hs : D.machine s a = some (s', seen)) :
    quiet s'.module = true → s'.pending = false ∧ s'.worker = none := by
  have hidle : quiet s.module = true → ∀ l uses, s.handlers l ≠ some uses := by
    intro hq l uses hl
    have hfire := h.irq l (h.handler l uses hl).1
    exact Bool.false_ne_true ((hf.closed hq l).symm.trans hfire)
  cases Driver.step_of_machine hs with
  | flush code unpending idle => exact fun _ => ⟨unpending, idle⟩
  | early => exact hquiet
  | interrupt => exact hquiet
  | handlerUse running => exact fun hq => absurd running (hidle hq _ _)
  | schedule running => exact fun hq => absurd running (hidle hq _ _)
  | startWork pending _ =>
    exact fun hq => absurd ((hquiet hq).1.symm.trans pending) Bool.false_ne_true
  | work running =>
    intro hq
    rw [(hquiet hq).2] at running
    exact absurd running.symm (Option.some_ne_none _)
  | nothing code => exact fun hq => hquiet ((hf.enter code hq).resolve_right (by simp))
  | acquire code => exact fun hq => hquiet ((hf.enter code hq).resolve_right (by simp))
  | release code => exact fun hq => hquiet ((hf.enter code hq).resolve_right (by simp))
  | requestIrq code => exact fun hq => hquiet ((hf.enter code hq).resolve_right (by simp))
  | freeIrq code => exact fun hq => hquiet ((hf.enter code hq).resolve_right (by simp))

/-- A flushing driver is safe as long as no interrupt gets through too early. -/
theorem inv_of_afterReady (hd : P.Describes D) (hf : P.Flushes D quiet) {m : M}
    (hm : ∀ r, P.up m r = false)
    (h : Reaches (D.machine.when P.afterReady) (DriverState.start m) s tr) : P.Inv s tr := by
  have hinv : P.Inv s tr ∧ (quiet s.module = true → s.pending = false ∧ s.worker = none) := by
    refine Reaches.invariant
      (I := fun s tr => P.Inv s tr ∧ (quiet s.module = true → s.pending = false ∧ s.worker = none))
      ⟨inv_start m hm, fun _ => ⟨rfl, rfl⟩⟩ ?_ h
    rintro s tr a s' seen ⟨hi, hq⟩ hs
    obtain ⟨hlate, hs⟩ := Machine.when_eq_some.mp hs
    exact ⟨inv_step hd hi (calm_of_afterReady hf hi hq hlate) hs, quiet_step hf hi hq hs⟩
  exact hinv.1

end Flushing

end Plan

section Exactness

inductive Driver.Visits (D : Driver M A L R W) : W → R → Prop
  | here (w) : Visits D w (D.workUses w)
  | next {w w' answer r} : D.workNext w answer = some w' → Visits D w' r → Visits D w r

inductive Driver.Ends (D : Driver M A L R W) : W → Prop
  | stop {w answer} : D.workNext w answer = none → Ends D w
  | next {w w' answer} : D.workNext w answer = some w' → Ends D w' → Ends D w

/-- The plan is no stricter than needed. -/
structure Plan.Exact (P : Plan M L R W) (D : Driver M A L R W) : Prop where
  used : ∀ r, r ∈ D.handlerUses ∨ r = D.workItem ∨ D.Visits D.workEntry r
  released : ∀ {m answer m' r}, D.module m answer = some (m', .release r) →
    r = D.workItem ∨ D.Visits D.workEntry r
  mayUse : ∀ {w r}, P.mayUse w r = true → D.Visits w r
  ends : ∀ w, D.Ends w

variable {D : Driver M A L R W} {P : Plan M L R W} {s s' : DriverState M L R W}
  {tr seen : List (ResourceEvent R)} {r : R}

theorem Driver.Visits.spoils {w : W} (hv : D.Visits w r) (hw : s.worker = some w)
    (hr : held r tr = false) :
    ∃ s' tr', Reaches D.machine s s' tr' ∧ ¬UsesHeld (tr ++ tr') := by
  induction hv generalizing s tr with
  | here w =>
    have hstep : D.machine s (.work true) =
        some ({ s with worker := D.workNext w true }, [.use (D.workUses w)]) := by
      simp [Driver.machine, hw]
    exact ⟨_, _, Reaches.single hstep, not_usesHeld hr⟩
  | @next w w' answer r hnext _ ih =>
    have hstep : D.machine s (.work answer) =
        some ({ s with worker := some w' }, [.use (D.workUses w)]) := by
      simp [Driver.machine, hw, hnext]
    have hr' : held r (tr ++ [ResourceEvent.use (D.workUses w)]) = false := by
      rw [held_concat, holds_use, hr]
    obtain ⟨s', tr', hreach, hbad⟩ := ih (s := { s with worker := some w' }) rfl hr'
    rw [List.append_assoc] at hbad
    exact ⟨s', _, (Reaches.single hstep).trans hreach, hbad⟩

theorem Driver.Ends.run {w : W} (he : D.Ends w) (hw : s.worker = some w) :
    ∃ s' tr', Reaches D.machine s s' tr' ∧ s'.worker = none ∧ s'.pending = s.pending ∧
      ∀ tr, held r (tr ++ tr') = held r tr := by
  induction he generalizing s with
  | @stop w answer hnext =>
    have hstep : D.machine s (.work answer) =
        some ({ s with worker := none }, [.use (D.workUses w)]) := by
      simp [Driver.machine, hw, hnext]
    exact ⟨_, _, Reaches.single hstep, rfl, rfl, fun tr => by rw [held_concat, holds_use]⟩
  | @next w w' answer hnext _ ih =>
    have hstep : D.machine s (.work answer) =
        some ({ s with worker := some w' }, [.use (D.workUses w)]) := by
      simp [Driver.machine, hw, hnext]
    obtain ⟨s', tr', hreach, hnone, hpending, hheld⟩ := ih (s := { s with worker := some w' }) rfl
    refine ⟨s', _, (Reaches.single hstep).trans hreach, hnone, hpending, fun tr => ?_⟩
    rw [← List.append_assoc, hheld, held_concat, holds_use]

theorem spoils_of_pending (hx : P.Exact D) (hp : s.pending = true)
    (hv : r = D.workItem ∨ D.Visits D.workEntry r) (hr : held r tr = false) :
    ∃ s' tr', Reaches D.machine s s' tr' ∧ ¬UsesHeld (tr ++ tr') := by
  have hfresh : ∀ (s : DriverState M L R W) tr, s.pending = true → s.worker = none →
      held r tr = false → ∃ s' tr', Reaches D.machine s s' tr' ∧ ¬UsesHeld (tr ++ tr') := by
    intro s tr hp hw hr
    have hstep : D.machine s .startWork =
        some ({ s with pending := false, worker := some D.workEntry }, [.use D.workItem]) := by
      simp [Driver.machine, hp, hw]
    rcases hv with rfl | hv
    · exact ⟨_, _, Reaches.single hstep, not_usesHeld hr⟩
    · have hr' : held r (tr ++ [ResourceEvent.use D.workItem]) = false := by
        rw [held_concat, holds_use, hr]
      obtain ⟨s', tr', hreach, hbad⟩ := hv.spoils
        (s := { s with pending := false, worker := some D.workEntry }) rfl hr'
      rw [List.append_assoc] at hbad
      exact ⟨s', _, (Reaches.single hstep).trans hreach, hbad⟩
  cases hw : s.worker with
  | none => exact hfresh s tr hp hw hr
  | some w =>
    obtain ⟨s₁, tr₁, hreach₁, hnone, hpending, hheld⟩ := (hx.ends w).run (r := r) hw
    obtain ⟨s', tr', hreach, hbad⟩ :=
      hfresh s₁ (tr ++ tr₁) (hpending.trans hp) hnone (by rw [hheld, hr])
    rw [List.append_assoc] at hbad
    exact ⟨s', _, hreach₁.trans hreach, hbad⟩

omit [DecidableEq R] in
theorem handler_run (l : L) (uses : List R) (hl : s.handlers l = some uses) :
    ∃ s', Reaches D.machine s s' (uses.map .use ++ [ResourceEvent.use D.workItem]) ∧
      s'.pending = true ∧ s'.worker = s.worker := by
  induction uses generalizing s with
  | nil =>
    have hstep : D.machine s (.handler l) =
        some ({ s with handlers := Function.update s.handlers l none, pending := true },
          [.use D.workItem]) := by
      simp [Driver.machine, hl]
    exact ⟨_, Reaches.single hstep, rfl, rfl⟩
  | cons r uses ih =>
    have hstep : D.machine s (.handler l) =
        some ({ s with handlers := Function.update s.handlers l (some uses) }, [.use r]) := by
      simp [Driver.machine, hl]
    obtain ⟨s', hreach, hp, hw⟩ := ih
      (s := { s with handlers := Function.update s.handlers l (some uses) })
      (Function.update_self _ _ _)
    exact ⟨s', (Reaches.single hstep).trans hreach, hp, hw⟩

theorem not_usesHeld_uses {uses : List R} (hmem : r ∈ uses) (hr : held r tr = false) :
    ¬UsesHeld (tr ++ uses.map .use) := by
  obtain ⟨before, after, rfl⟩ := List.append_of_mem hmem
  rw [List.map_append, List.map_cons, ← List.append_assoc]
  exact not_usesHeld (by rw [held_uses, hr])

/-- An interrupt that gets through too early can be continued to a bad use. -/
theorem Plan.Inv.spoils_of_interrupt (hd : P.Describes D) (hx : P.Exact D) (h : P.Inv s tr)
    {l : L} (hirq : s.irqs l = true) (hnot : P.ready s.module = false)
    (hs : D.machine s (.interrupt l false) = some (s', seen)) :
    ∃ t tr', Reaches D.machine s' t tr' ∧ ¬UsesHeld (tr ++ (seen ++ tr')) := by
  obtain ⟨r, hr⟩ : ∃ r, P.up s.module r = false := by
    by_contra hall
    simp only [not_exists, Bool.not_eq_false] at hall
    exact Bool.false_ne_true (hnot.symm.trans ((hd.ready_iff _).mpr hall))
  rw [← h.held_eq] at hr
  have hworker : s.worker = none := by
    cases hw : s.worker with
    | none => rfl
    | some w =>
      rcases h.late w hw with hready | hall
      · exact absurd (hnot.symm.trans hready) Bool.false_ne_true
      · exact absurd ((hall l).symm.trans (h.irq l hirq)) Bool.false_ne_true
  cases Driver.step_of_machine hs with
  | interrupt =>
    obtain ⟨t, hreach, hp, hw⟩ := handler_run (D := D)
      (s := { s with handlers := Function.update s.handlers l (some D.handlerUses) }) l
      D.handlerUses (Function.update_self _ _ _)
    have huses : D.handlerUses.map ResourceEvent.use ++ [ResourceEvent.use D.workItem] =
        (D.handlerUses ++ [D.workItem]).map ResourceEvent.use := by
      rw [List.map_append, List.map_singleton]
    rw [huses] at hreach
    rcases hx.used r with hmem | heq | hv
    · exact ⟨t, _, hreach, not_usesHeld_uses (List.mem_append_left _ hmem) hr⟩
    · have hmem := List.mem_append_right D.handlerUses (List.mem_singleton.mpr heq)
      exact ⟨t, _, hreach, not_usesHeld_uses hmem hr⟩
    · have hr' : held r (tr ++ (D.handlerUses ++ [D.workItem]).map .use) = false := by
        rw [held_uses, hr]
      obtain ⟨t', tr', hreach', hbad⟩ := spoils_of_pending hx hp (Or.inr hv) hr'
      rw [List.append_assoc] at hbad
      exact ⟨t', _, hreach.trans hreach', hbad⟩

theorem Plan.Inv.spoils_of_release (hx : P.Exact D) {answer : A} {m : M}
    (code : D.module s.module answer = some (m, .release r)) (hneeds : P.workNeeds s r = true) :
    ∃ t tr', Reaches D.machine { s with module := m } t tr' ∧
      ¬UsesHeld (tr ++ (ResourceEvent.release r :: tr')) := by
  have hr : held r (tr ++ [ResourceEvent.release r]) = false := by
    rw [held_concat, holds_release, if_pos rfl]
  have hspoils : ∃ t tr', Reaches D.machine { s with module := m } t tr' ∧
      ¬UsesHeld ((tr ++ [ResourceEvent.release r]) ++ tr') := by
    rw [workNeeds, Bool.or_eq_true] at hneeds
    rcases hneeds with hp | hworker
    · exact spoils_of_pending hx hp (hx.released code) hr
    · obtain ⟨w, hw, hmay⟩ : ∃ w, s.worker = some w ∧ P.mayUse w r = true := by
        split at hworker
        · exact absurd hworker Bool.false_ne_true
        · next w hw => exact ⟨w, hw, hworker⟩
      exact (hx.mayUse hmay).spoils hw hr
  obtain ⟨t, tr', hreach, hbad⟩ := hspoils
  rw [List.append_assoc] at hbad
  exact ⟨t, tr', hreach, hbad⟩

/-- After a calm run, every step that is not calm can be continued to a bad use. -/
theorem Plan.Inv.spoils_of_not_calm (hd : P.Describes D) (hx : P.Exact D) (h : P.Inv s tr)
    {a : DriverAction A L} (hnot : P.calm D s a = false) (hs : D.machine s a = some (s', seen)) :
    ∃ t tr', Reaches D.machine s' t tr' ∧ ¬UsesHeld (tr ++ (seen ++ tr')) := by
  cases a with
  | module answer =>
    rw [calm] at hnot
    split at hnot
    · next m r code =>
      rw [Driver.machine, code] at hs
      obtain ⟨rfl, rfl⟩ := Prod.mk.inj (Option.some.inj hs)
      exact spoils_of_release hx code (by simpa using hnot)
    · exact absurd hnot.symm Bool.false_ne_true
  | interrupt l early =>
    rw [calm, Bool.or_eq_false_iff] at hnot
    obtain ⟨rfl, hready⟩ := hnot
    cases hirq : s.irqs l with
    | false => simp [Driver.machine, hirq] at hs
    | true => exact h.spoils_of_interrupt hd hx hirq hready hs
  | _ => exact absurd hnot.symm Bool.false_ne_true

theorem Plan.Inv.spoils_of_early (hd : P.Describes D) (hx : P.Exact D) (h : P.Inv s tr)
    {a : DriverAction A L} (hnot : P.afterReady s a = false)
    (hs : D.machine s a = some (s', seen)) :
    ∃ t tr', Reaches D.machine s' t tr' ∧ ¬UsesHeld (tr ++ (seen ++ tr')) := by
  cases a with
  | interrupt l early =>
    have hcalm : P.calm D s (.interrupt l early) = false := hnot
    exact h.spoils_of_not_calm hd hx hcalm hs
  | _ => exact absurd hnot.symm Bool.false_ne_true

end Exactness

end LinuxOddsAndEnds.Foundation
