import LinuxOddsAndEnds.Foundation.History
import Mathlib.Data.List.Induction
import Mathlib.Data.Set.Insert

/-!
# Resources over a history

A program acquires, releases and uses resources. Its history tells at each point what is
held: the last event that acquired or released the resource decides. A history is lawful
if nothing is acquired while held, and only what is held is released or used; then the
releases of a resource match its acquisitions one by one.
-/

namespace LinuxOddsAndEnds.Foundation

inductive ResourceEvent (R : Type*) where
  | acquire (r : R)
  | release (r : R)
  | use (r : R)
  deriving DecidableEq

variable {R : Type*} [DecidableEq R]

/-- Whether `r` is held after the event, if `b` tells so of before. -/
def ResourceEvent.holds (r : R) (b : Bool) : ResourceEvent R → Bool
  | .acquire r' => if r' = r then true else b
  | .release r' => if r' = r then false else b
  | .use _ => b

def held (r : R) (tr : List (ResourceEvent R)) : Bool :=
  tr.foldl (fun b e => e.holds r b) false

def LawfulAfter (pre : List (ResourceEvent R)) : ResourceEvent R → Prop
  | .acquire r => held r pre = false
  | .release r => held r pre = true
  | .use r => held r pre = true

/-- What may follow a history if only uses are judged. -/
def UsableAfter (pre : List (ResourceEvent R)) : ResourceEvent R → Prop
  | .acquire _ | .release _ => True
  | .use r => held r pre = true

/-- Nothing is used before it is acquired or after it is released. -/
def UsesHeld (tr : List (ResourceEvent R)) : Prop := Judged UsableAfter tr

def Lawful (tr : List (ResourceEvent R)) : Prop := Judged LawfulAfter tr

/-- Everything acquired has been released again, once. -/
def Settled (tr : List (ResourceEvent R)) : Prop := Lawful tr ∧ ∀ r, held r tr = false

instance (pre : List (ResourceEvent R)) : ∀ e, Decidable (LawfulAfter pre e)
  | .acquire r => inferInstanceAs (Decidable (held r pre = false))
  | .release r => inferInstanceAs (Decidable (held r pre = true))
  | .use r => inferInstanceAs (Decidable (held r pre = true))

instance (tr : List (ResourceEvent R)) : Decidable (Lawful tr) :=
  inferInstanceAs (Decidable (Judged _ tr))

instance (pre : List (ResourceEvent R)) : ∀ e, Decidable (UsableAfter pre e)
  | .acquire _ | .release _ => isTrue trivial
  | .use r => inferInstanceAs (Decidable (held r pre = true))

instance (tr : List (ResourceEvent R)) : Decidable (UsesHeld tr) :=
  inferInstanceAs (Decidable (Judged _ tr))

@[simp] theorem held_nil (r : R) : held r [] = false := rfl

theorem held_append (r : R) (tr tr' : List (ResourceEvent R)) :
    held r (tr ++ tr') = tr'.foldl (fun b e => e.holds r b) (held r tr) :=
  List.foldl_append

@[simp] theorem held_concat (r : R) (tr : List (ResourceEvent R)) (e : ResourceEvent R) :
    held r (tr ++ [e]) = e.holds r (held r tr) := held_append r tr [e]

@[simp] theorem holds_use (r r' : R) (b : Bool) : (ResourceEvent.use r').holds r b = b := rfl

theorem holds_acquire (r r' : R) (b : Bool) :
    (ResourceEvent.acquire r').holds r b = if r' = r then true else b := rfl

theorem holds_release (r r' : R) (b : Bool) :
    (ResourceEvent.release r').holds r b = if r' = r then false else b := rfl

theorem usesHeld_nil : UsesHeld ([] : List (ResourceEvent R)) := trivial

theorem UsesHeld.use {tr : List (ResourceEvent R)} (h : UsesHeld tr) {r : R}
    (hr : held r tr = true) : UsesHeld (tr ++ [ResourceEvent.use r]) := by
  apply h.append
  rw [judgedFrom_cons]
  exact ⟨hr, trivial⟩

theorem UsesHeld.other {tr : List (ResourceEvent R)} (h : UsesHeld tr) {e : ResourceEvent R}
    (he : ∀ r, e ≠ .use r) : UsesHeld (tr ++ [e]) := by
  apply h.append
  rw [judgedFrom_cons]
  cases e with
  | use r => exact absurd rfl (he r)
  | _ => exact ⟨trivial, trivial⟩

theorem not_usesHeld {tr tr' : List (ResourceEvent R)} {r : R} (hr : held r tr = false) :
    ¬UsesHeld (tr ++ ResourceEvent.use r :: tr') := by
  apply not_judged
  intro h
  exact Bool.false_ne_true (hr.symm.trans h)

theorem Lawful.count_acquire {tr : List (ResourceEvent R)} (h : Lawful tr) (r : R) :
    tr.count (.acquire r) = tr.count (.release r) + (held r tr).toNat := by
  induction tr using List.reverseRecOn with
  | nil => rfl
  | append_singleton tr e ih =>
    obtain ⟨hpre, hlast⟩ := judged_append.mp h
    have hcount := ih hpre
    have he : LawfulAfter tr e := (judgedFrom_cons.mp hlast).1
    rw [List.count_append, List.count_append, held_concat]
    cases e with
    | acquire r' =>
      by_cases hr : r' = r
      · subst hr
        have hfree : held r' tr = false := he
        simp only [hfree, Bool.toNat_false] at hcount
        simp [holds_acquire, hcount]
      · simp [holds_acquire, hr, hcount]
    | release r' =>
      by_cases hr : r' = r
      · subst hr
        have hheld : held r' tr = true := he
        simp only [hheld, Bool.toNat_true] at hcount
        simp [holds_release, hcount]
      · simp [holds_release, hr, hcount]
    | use r' => simp [hcount]

/-- At the end of a lawful history that holds nothing, all was released as often as it
was acquired. -/
theorem Settled.balanced {tr : List (ResourceEvent R)} (h : Settled tr) (r : R) :
    tr.count (.acquire r) = tr.count (.release r) := by
  rw [h.1.count_acquire r, h.2 r, Bool.toNat_false, Nat.add_zero]

theorem not_lawful_of_use {tr tr' : List (ResourceEvent R)} {r : R} (hr : held r tr = false) :
    ¬Lawful (tr ++ ResourceEvent.use r :: tr') := by
  apply not_judged
  intro h
  exact Bool.false_ne_true (hr.symm.trans h)

theorem not_lawful_of_release {tr tr' : List (ResourceEvent R)} {r : R} (hr : held r tr = false) :
    ¬Lawful (tr ++ ResourceEvent.release r :: tr') := by
  apply not_judged
  intro h
  exact Bool.false_ne_true (hr.symm.trans h)

section Lists

variable {r : R} {tr : List (ResourceEvent R)} {l : List R}

theorem held_of_release_notMem {tr' : List (ResourceEvent R)} (hr : held r tr = true)
    (hnever : .release r ∉ tr') : held r (tr ++ tr') = true := by
  induction tr' generalizing tr with
  | nil => simpa using hr
  | cons e tr' ih =>
    rw [List.mem_cons, not_or] at hnever
    obtain ⟨hne, hrest⟩ := hnever
    rw [List.append_cons]
    refine ih ?_ hrest
    rw [held_concat]
    cases e with
    | acquire r' => simp [holds_acquire, hr]
    | release r' =>
      have hother : r' ≠ r := fun he => hne (by rw [he])
      rw [holds_release, if_neg hother, hr]
    | use r' => exact hr

theorem held_uses (tr : List (ResourceEvent R)) (uses : List R) :
    held r (tr ++ uses.map .use) = held r tr := by
  induction uses generalizing tr with
  | nil => simp
  | cons r' uses ih =>
    rw [List.map_cons, List.append_cons, ih, held_concat, holds_use]

theorem held_acquires (tr : List (ResourceEvent R)) (l : List R) :
    held r (tr ++ l.map .acquire) = (held r tr || decide (r ∈ l)) := by
  induction l generalizing tr with
  | nil => simp
  | cons r' l ih =>
    rw [List.map_cons, List.append_cons, ih, held_concat, holds_acquire]
    by_cases hr : r' = r
    · simp [hr]
    · simp [hr, Ne.symm hr]

theorem held_releases (tr : List (ResourceEvent R)) (l : List R) :
    held r (tr ++ l.map .release) = (held r tr && !decide (r ∈ l)) := by
  induction l generalizing tr with
  | nil => simp
  | cons r' l ih =>
    rw [List.map_cons, List.append_cons, ih, held_concat, holds_release]
    by_cases hr : r' = r
    · simp [hr]
    · simp [hr, Ne.symm hr]

theorem Lawful.acquires (h : Lawful tr) (hl : l.Nodup) (hfree : ∀ r ∈ l, held r tr = false) :
    Lawful (tr ++ l.map .acquire) := by
  induction l generalizing tr with
  | nil => simpa using h
  | cons r l ih =>
    obtain ⟨hnotMem, hl⟩ := List.nodup_cons.mp hl
    have hstep : Lawful (tr ++ [ResourceEvent.acquire r]) :=
      h.append ⟨hfree r List.mem_cons_self, trivial⟩
    rw [List.map_cons, List.append_cons]
    refine ih hstep hl ?_
    intro r' hr'
    have hne : r ≠ r' := fun he => hnotMem (he ▸ hr')
    rw [held_concat, holds_acquire, if_neg hne]
    exact hfree r' (List.mem_cons_of_mem r hr')

theorem Lawful.releases_iff (h : Lawful tr) (hl : l.Nodup) :
    Lawful (tr ++ l.map .release) ↔ ∀ r ∈ l, held r tr = true := by
  induction l generalizing tr with
  | nil => simpa using h
  | cons r l ih =>
    obtain ⟨hnotMem, hl⟩ := List.nodup_cons.mp hl
    rw [List.map_cons, List.forall_mem_cons]
    cases hr : held r tr with
    | false => exact iff_of_false (not_lawful_of_release hr) fun hall => by simp at hall
    | true =>
      have hstep : Lawful (tr ++ [ResourceEvent.release r]) := h.append ⟨hr, trivial⟩
      have hsame : ∀ r' ∈ l, held r' (tr ++ [ResourceEvent.release r]) = held r' tr := by
        intro r' hr'
        have hne : r ≠ r' := fun he => hnotMem (he ▸ hr')
        rw [held_concat, holds_release, if_neg hne]
      rw [List.append_cons, ih hstep hl]
      constructor
      · exact fun hall => ⟨rfl, fun r' hr' => (hsame r' hr').symm.trans (hall r' hr')⟩
      · exact fun hall r' hr' => (hsame r' hr').trans (hall.2 r' hr')

theorem settled_iff {taken given : List R} (ht : taken.Nodup) (hg : given.Nodup) :
    Settled (taken.map .acquire ++ given.map .release) ↔ ∀ r, r ∈ taken ↔ r ∈ given := by
  have hlawful : Lawful (taken.map ResourceEvent.acquire) := by
    have hnil : Lawful ([] : List (ResourceEvent R)) := trivial
    simpa using hnil.acquires ht fun _ _ => rfl
  have hheld : ∀ r, held r (taken.map ResourceEvent.acquire) = decide (r ∈ taken) := by
    intro r
    simpa using held_acquires (r := r) [] taken
  rw [Settled, hlawful.releases_iff hg]
  constructor
  · rintro ⟨hgiven, hnone⟩ r
    constructor
    · intro hr
      have hlast := hnone r
      rw [held_releases, hheld] at hlast
      simpa [hr] using hlast
    · intro hr
      have hr' := hgiven r hr
      rw [hheld] at hr'
      exact of_decide_eq_true hr'
  · intro hsame
    constructor
    · intro r hr
      rw [hheld]
      exact decide_eq_true ((hsame r).mpr hr)
    · intro r
      rw [held_releases, hheld]
      simp [hsame r]

end Lists

section Mapping

variable {R' : Type*} [DecidableEq R']

def ResourceEvent.map (f : R → R') : ResourceEvent R → ResourceEvent R'
  | .acquire r => .acquire (f r)
  | .release r => .release (f r)
  | .use r => .use (f r)

variable {f : R → R'} {tr : List (ResourceEvent R)}

theorem held_map (hf : Function.Injective f) (r : R) :
    held (f r) (tr.map (.map f)) = held r tr := by
  induction tr using List.reverseRecOn with
  | nil => rfl
  | append_singleton tr e ih =>
    rw [List.map_append, List.map_singleton, held_concat, held_concat, ih]
    cases e <;> simp [ResourceEvent.map, ResourceEvent.holds, hf.eq_iff]

omit [DecidableEq R] in
theorem held_append_map (pre : List (ResourceEvent R')) {r' : R'} (hr : ∀ r, f r ≠ r') :
    held r' (pre ++ tr.map (.map f)) = held r' pre := by
  induction tr generalizing pre with
  | nil => simp
  | cons e tr ih =>
    rw [List.map_cons, List.append_cons, ih, held_concat]
    cases e <;> simp [ResourceEvent.map, ResourceEvent.holds, hr]

theorem judgedFrom_map_iff (hf : Function.Injective f) (pre : List (ResourceEvent R)) :
    JudgedFrom LawfulAfter (pre.map (.map f)) (tr.map (.map f)) ↔
      JudgedFrom LawfulAfter pre tr := by
  induction tr generalizing pre with
  | nil => rfl
  | cons e tr ih =>
    have hsnoc := ih (pre ++ [e])
    rw [List.map_append, List.map_singleton] at hsnoc
    rw [List.map_cons, judgedFrom_cons, judgedFrom_cons, hsnoc]
    refine and_congr_left fun _ => ?_
    cases e <;> simp [ResourceEvent.map, LawfulAfter, held_map hf]

theorem lawful_map_iff (hf : Function.Injective f) :
    Lawful (tr.map (.map f)) ↔ Lawful tr :=
  judgedFrom_map_iff hf []

theorem settled_map_iff (hf : Function.Injective f) :
    Settled (tr.map (.map f)) ↔ Settled tr := by
  refine and_congr (lawful_map_iff hf) ⟨fun h r => ?_, fun h r' => ?_⟩
  · rw [← held_map hf]
    exact h (f r)
  · by_cases hr : ∃ r, f r = r'
    · obtain ⟨r, rfl⟩ := hr
      rw [held_map hf, h r]
    · exact held_append_map [] fun r heq => hr ⟨r, heq⟩

end Mapping

section Owning

variable {H : Set R} {r : R} {tr : List (ResourceEvent R)} {l : List R}

/-- A lawful history after which exactly the resources in `H` are held. -/
structure Owns (H : Set R) (tr : List (ResourceEvent R)) : Prop where
  lawful : Lawful tr
  held_iff : ∀ r, held r tr = true ↔ r ∈ H

theorem owns_nil : Owns (∅ : Set R) [] := ⟨trivial, fun r => by simp⟩

theorem Owns.acquire (h : Owns H tr) (hr : r ∉ H) :
    Owns (insert r H) (tr ++ [ResourceEvent.acquire r]) where
  lawful := h.lawful.append ⟨Bool.eq_false_iff.mpr (mt (h.held_iff r).mp hr), trivial⟩
  held_iff x := by
    rw [held_concat, holds_acquire]
    split_ifs with hx
    · simp [hx]
    · rw [h.held_iff, Set.mem_insert_iff, or_iff_right (Ne.symm hx)]

theorem Owns.release (h : Owns H tr) (hr : r ∈ H) :
    Owns (H \ {r}) (tr ++ [ResourceEvent.release r]) where
  lawful := h.lawful.append ⟨(h.held_iff r).mpr hr, trivial⟩
  held_iff x := by
    rw [held_concat, holds_release]
    split_ifs with hx
    · simp [hx]
    · rw [h.held_iff, Set.mem_sdiff, Set.mem_singleton_iff, and_iff_left (Ne.symm hx)]

theorem Owns.release_insert (h : Owns (insert r H) tr) (hr : r ∉ H) :
    Owns H (tr ++ [ResourceEvent.release r]) := by
  have hset : insert r H \ {r} = H := by
    ext x
    simp only [Set.mem_sdiff, Set.mem_insert_iff, Set.mem_singleton_iff, or_and_right,
      and_not_self, false_or, and_iff_left_iff_imp]
    rintro hx rfl
    exact hr hx
  have hrest := h.release (Set.mem_insert r H)
  rwa [hset] at hrest

theorem Owns.uses (h : Owns H tr) (hl : ∀ r ∈ l, r ∈ H) : Owns H (tr ++ l.map .use) := by
  induction l generalizing tr with
  | nil => simpa using h
  | cons r l ih =>
    have hstep : Owns H (tr ++ [ResourceEvent.use r]) := by
      refine ⟨h.lawful.append ⟨(h.held_iff r).mpr (hl r List.mem_cons_self), trivial⟩, fun x => ?_⟩
      rw [held_concat, holds_use, h.held_iff]
    rw [List.map_cons, List.append_cons]
    exact ih hstep fun x hx => hl x (List.mem_cons_of_mem r hx)

theorem Owns.settled_iff (h : Owns H tr) : Settled tr ↔ H = ∅ := by
  rw [Settled, and_iff_right h.lawful, Set.eq_empty_iff_forall_notMem]
  refine forall_congr' fun r => ?_
  rw [← h.held_iff, Bool.not_eq_true]

end Owning

section Counting

variable {tr tr' pre : List (ResourceEvent R)}

/-- What may follow a history of resources that may be acquired several times over. -/
def CoveredAfter (pre : List (ResourceEvent R)) : ResourceEvent R → Prop
  | .acquire _ => True
  | .release r | .use r => pre.count (.release r) < pre.count (.acquire r)

/-- Every acquisition has been followed by one release of its own. -/
def Repaid (tr : List (ResourceEvent R)) : Prop :=
  Judged CoveredAfter tr ∧ ∀ r, tr.count (.acquire r) = tr.count (.release r)

theorem repaid_nil : Repaid ([] : List (ResourceEvent R)) := ⟨trivial, fun _ => rfl⟩

/-- What has been repaid covers nothing that comes later. -/
theorem judgedFrom_covered_append (hpre : ∀ r, pre.count (.acquire r) = pre.count (.release r))
    (part : List (ResourceEvent R)) :
    JudgedFrom CoveredAfter (pre ++ part) tr ↔ JudgedFrom CoveredAfter part tr := by
  induction tr generalizing part with
  | nil => exact Iff.rfl
  | cons e tr ih =>
    rw [judgedFrom_cons, judgedFrom_cons, List.append_assoc, ih]
    refine and_congr_left fun _ => ?_
    cases e with
    | acquire r => exact Iff.rfl
    | release r | use r =>
      rw [CoveredAfter, List.count_append, List.count_append, hpre r]
      exact Nat.add_lt_add_iff_left

theorem Repaid.append (h : Repaid tr) (h' : Repaid tr') : Repaid (tr ++ tr') := by
  refine ⟨h.1.append ?_, fun r => ?_⟩
  · have hfrom := (judgedFrom_covered_append h.2 []).mpr h'.1
    rwa [List.append_nil] at hfrom
  · rw [List.count_append, List.count_append, h.2 r, h'.2 r]

/-- Two acquisitions repaid in their order, also when they are of one resource. -/
theorem repaid_two (r r' : R) : Repaid [.acquire r, .acquire r', .release r, .release r'] := by
  refine ⟨?_, fun x => by simp [List.count_cons]⟩
  by_cases hr : r = r'
  · subst hr
    simp [Judged, CoveredAfter]
  · simp [Judged, CoveredAfter, hr, Ne.symm hr]

end Counting

end LinuxOddsAndEnds.Foundation
