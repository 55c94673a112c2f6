import Mathlib.Data.Int.Notation
import Mathlib.Data.List.TakeDrop
import Mathlib.Tactic.Common

/-!
# Draining a queue record by record

A reader asks for a number of records. For each of them it tests whether it may go on,
looks at the oldest record, hands it over and removes it. It stops when the request is
satisfied or when one of the three fails. A queue is known by a view: a relation between
its state and the records it stores, which holds for a number of removals to come. Within
that number the records handed over are the oldest ones and exactly those removed.
-/

namespace LinuxOddsAndEnds.Foundation

/-- What a reader can do with a queue. -/
structure Drainable (σ ρ : Type*) where
  ready : σ → Bool
  front : σ → Option ρ
  pop : σ → σ

inductive Ending where
  | satisfied
  | unready
  | missing
  | refused
  deriving DecidableEq

structure Drained (σ ρ : Type*) where
  records : List ρ
  ending : Ending
  rest : σ

variable {σ ρ : Type*}

/-- `accept i` tells whether the `i`-th record is taken over; `done` were before. -/
def Drainable.drain (D : Drainable σ ρ) (accept : ℕ → Bool) : ℕ → ℕ → σ → Drained σ ρ
  | 0, _, s => ⟨[], .satisfied, s⟩
  | n + 1, done, s =>
    if D.ready s then
      match D.front s with
      | some x =>
        if accept done then
          let rest := D.drain accept n (done + 1) (D.pop s)
          { rest with records := x :: rest.records }
        else ⟨[], .refused, s⟩
      | none => ⟨[], .missing, s⟩
    else ⟨[], .unready, s⟩

section Cases

variable {D : Drainable σ ρ} {accept : ℕ → Bool} {n done : ℕ} {s : σ} {x : ρ}

theorem drain_unready (hready : D.ready s = false) :
    D.drain accept (n + 1) done s = ⟨[], .unready, s⟩ := by
  rw [Drainable.drain, hready, if_neg Bool.false_ne_true]

theorem drain_missing (hready : D.ready s = true) (hfront : D.front s = none) :
    D.drain accept (n + 1) done s = ⟨[], .missing, s⟩ := by
  rw [Drainable.drain, if_pos hready, hfront]

theorem drain_refused (hready : D.ready s = true) (hfront : D.front s = some x)
    (hacc : accept done = false) : D.drain accept (n + 1) done s = ⟨[], .refused, s⟩ := by
  rw [Drainable.drain, if_pos hready, hfront, hacc]
  exact if_neg Bool.false_ne_true

theorem drain_accepted (hready : D.ready s = true) (hfront : D.front s = some x)
    (hacc : accept done = true) :
    D.drain accept (n + 1) done s =
      { D.drain accept n (done + 1) (D.pop s) with
        records := x :: (D.drain accept n (done + 1) (D.pop s)).records } := by
  rw [Drainable.drain, if_pos hready, hfront]
  exact if_pos hacc

end Cases

/-- `View b s q`: the queue stores `q`, and is as it should be for `b` more removals. -/
structure Viewed (D : Drainable σ ρ) (View : ℕ → σ → List ρ → Prop) : Prop where
  front : ∀ {b s q}, View (b + 1) s q → D.front s = q.head?
  pop : ∀ {b s x q}, View (b + 1) s (x :: q) → View b (D.pop s) q
  ready : ∀ {b s x q}, View (b + 1) s (x :: q) → D.ready (D.pop s) = true

/-- The result of a reader who handed over and removed the first `r` records of `q`. -/
structure Delivers (D : Drainable σ ρ) (View : ℕ → σ → List ρ → Prop) (accept : ℕ → Bool)
    (n done b : ℕ) (s : σ) (q : List ρ) (out : Drained σ ρ) (r : ℕ) : Prop where
  le_request : r ≤ n
  le_stored : r ≤ q.length
  records : out.records = q.take r
  rest : View (b - r) out.rest (q.drop r)
  accepted : ∀ i < r, accept (done + i) = true
  satisfied : out.ending = .satisfied → r = n
  unready : out.ending = .unready → r = 0 ∧ D.ready s = false ∧ 0 < n
  missing : out.ending = .missing → r = q.length ∧ r < n
  refused : out.ending = .refused → accept (done + r) = false ∧ r < n

variable {D : Drainable σ ρ} {View : ℕ → σ → List ρ → Prop} {accept : ℕ → Bool}

/-- The loop rule: as long as the view covers the request, the reader delivers. -/
theorem Viewed.drain (hv : Viewed D View) (accept : ℕ → Bool) :
    ∀ (n done b : ℕ) (s : σ) (q : List ρ), View b s q → n ≤ b ∨ q.length < b →
    ∃ r, Delivers D View accept n done b s q (D.drain accept n done s) r := by
  intro n
  induction n with
  | zero =>
    intro done b s q hs _
    exact ⟨0, Nat.le_refl _, Nat.zero_le _, rfl, hs, by simp, fun _ => rfl,
      by simp [Drainable.drain], by simp [Drainable.drain], by simp [Drainable.drain]⟩
  | succ n ih =>
    intro done b s q hs hb
    obtain ⟨b, rfl⟩ : ∃ b', b = b' + 1 := Nat.exists_eq_succ_of_ne_zero (by omega)
    have hfront := hv.front hs
    by_cases hready : D.ready s = true
    · cases q with
      | nil =>
        rw [drain_missing hready hfront]
        exact ⟨0, Nat.zero_le _, Nat.zero_le _, rfl, hs, by simp, by simp, by simp, by simp,
          by simp⟩
      | cons x q =>
        by_cases hacc : accept done = true
        · have hnext := hv.ready hs
          obtain ⟨r, hr⟩ := ih (done + 1) b (D.pop s) q (hv.pop hs) (by simpa using hb)
          rw [drain_accepted hready hfront hacc]
          refine ⟨r + 1, Nat.succ_le_succ hr.le_request, Nat.succ_le_succ hr.le_stored, ?_, ?_, ?_,
            ?_, ?_, ?_, ?_⟩
          · rw [List.take_succ_cons, hr.records]
          · rw [Nat.succ_sub_succ, List.drop_succ_cons]
            exact hr.rest
          · intro i hi
            cases i with
            | zero => exact hacc
            | succ i =>
              have hi' := hr.accepted i (Nat.lt_of_succ_lt_succ hi)
              rwa [Nat.add_assoc, Nat.add_comm 1] at hi'
          · intro he
            rw [hr.satisfied he]
          · intro he
            rw [(hr.unready he).2.1] at hnext
            exact absurd hnext Bool.false_ne_true
          · intro he
            obtain ⟨hlen, hlt⟩ := hr.missing he
            exact ⟨by rw [hlen, List.length_cons], Nat.succ_lt_succ hlt⟩
          · intro he
            obtain ⟨hrefuse, hlt⟩ := hr.refused he
            rw [Nat.add_assoc, Nat.add_comm 1] at hrefuse
            exact ⟨hrefuse, Nat.succ_lt_succ hlt⟩
        · have hrefuse := Bool.eq_false_iff.mpr hacc
          rw [drain_refused hready hfront hrefuse]
          exact ⟨0, Nat.zero_le _, Nat.zero_le _, rfl, hs, by simp, by simp, by simp, by simp,
            fun _ => ⟨hrefuse, Nat.succ_pos _⟩⟩
    · rw [drain_unready (Bool.eq_false_iff.mpr hready)]
      exact ⟨0, Nat.zero_le _, Nat.zero_le _, rfl, hs, by simp, by simp,
        fun _ => ⟨rfl, Bool.eq_false_iff.mpr hready, Nat.succ_pos _⟩, by simp, by simp⟩

theorem Drainable.drain_add (D : Drainable σ ρ) (accept : ℕ → Bool) (m : ℕ) :
    ∀ (n done : ℕ) (s : σ), D.drain accept (n + m) done s =
      if (D.drain accept n done s).ending = .satisfied then
        let rest := D.drain accept m (done + n) (D.drain accept n done s).rest
        { rest with records := (D.drain accept n done s).records ++ rest.records }
      else D.drain accept n done s := by
  intro n
  induction n with
  | zero =>
    intro done s
    simp [Drainable.drain]
  | succ n ih =>
    intro done s
    rw [Nat.succ_add]
    cases hready : D.ready s with
    | false => simp [drain_unready hready]
    | true =>
      cases hfront : D.front s with
      | none => simp [drain_missing hready hfront]
      | some x =>
        cases hacc : accept done with
        | false => simp [drain_refused hready hfront hacc]
        | true =>
          rw [drain_accepted hready hfront hacc, drain_accepted hready hfront hacc, ih]
          split_ifs with he
          · simp only [List.cons_append, Nat.add_assoc, Nat.add_comm 1 n]
          · rfl

/-- What a reader owes its caller: it removed the oldest records, handed over exactly
these, and answers their size, or an error only if there are none. -/
def Accounted (Stores : σ → List ρ → Prop) (width : ℕ) (q : List ρ) (answer : ℤ)
    (records : List ρ) (rest : σ) : Prop :=
  ∃ r ≤ q.length, records = q.take r ∧ Stores rest (q.drop r) ∧
    (0 < r → answer = width * r) ∧ (answer < 0 → r = 0)

/-- The answer of a reader that reports a failure whatever came before it. -/
def answerOf (width : ℕ) (error : ℤ) (out : Drained σ ρ) (done : ℕ) : ℤ :=
  match out.ending with
  | .satisfied | .unready => width * (done + out.records.length)
  | .missing | .refused => error

theorem answerOf_cons (width : ℕ) (error : ℤ) (out : Drained σ ρ) (x : ρ) (done : ℕ) :
    answerOf width error { out with records := x :: out.records } done =
      answerOf width error out (done + 1) := by
  have hcount :
      (done : ℤ) + (out.records.length + 1 : ℕ) = (done + 1 : ℕ) + out.records.length := by
    omega
  cases he : out.ending with
  | satisfied => simp only [answerOf, he, List.length_cons, hcount]
  | unready => simp only [answerOf, he, List.length_cons, hcount]
  | missing => simp only [answerOf, he]
  | refused => simp only [answerOf, he]

theorem Accounted.of_none {Stores : σ → List ρ → Prop} {q : List ρ} {rest : σ} (width : ℕ)
    (answer : ℤ) (hs : Stores rest q) : Accounted Stores width q answer [] rest :=
  ⟨0, Nat.zero_le _, rfl, hs, fun h0 => absurd h0 (Nat.lt_irrefl 0), fun _ => rfl⟩

theorem not_accounted_of_error {Stores : σ → List ρ → Prop} {width : ℕ} {q records : List ρ}
    {answer : ℤ} {rest : σ} (herr : answer < 0) (hrec : records ≠ []) :
    ¬Accounted Stores width q answer records rest := by
  rintro ⟨r, -, rfl, -, -, hneg⟩
  rw [hneg herr] at hrec
  exact hrec rfl

namespace Delivers

variable {n b r : ℕ} {s : σ} {q : List ρ}

theorem length_records {done : ℕ} {out : Drained σ ρ}
    (hd : Delivers D View accept n done b s q out r) : out.records.length = r := by
  rw [hd.records, List.length_take, Nat.min_eq_left hd.le_stored]

theorem satisfied_iff {done : ℕ} {out : Drained σ ρ}
    (hd : Delivers D View accept n done b s q out r) : out.ending = .satisfied ↔ r = n := by
  constructor
  · exact hd.satisfied
  · intro hr
    cases he : out.ending with
    | satisfied => rfl
    | unready =>
      obtain ⟨h0, -, hn⟩ := hd.unready he
      omega
    | missing => exact absurd hr (Nat.ne_of_lt (hd.missing he).2)
    | refused => exact absurd hr (Nat.ne_of_lt (hd.refused he).2)

/-- A reader that reports every failure is accounted for if it handed over nothing or
all that was asked for, and not otherwise. -/
theorem accounted_iff {out : Drained σ ρ} {width : ℕ} {error : ℤ} {Stores : σ → List ρ → Prop}
    (hd : Delivers D View accept n 0 b s q out r)
    (hstores : ∀ {b s q}, View b s q → Stores s q) (herr : error < 0) :
    Accounted Stores width q (answerOf width error out 0) out.records out.rest ↔
      r = 0 ∨ r = n := by
  have hlen := hd.length_records
  constructor
  · rintro ⟨r', hr', hrec, -, hanswer, hneg⟩
    have hrr : r' = r := by
      rw [hrec, List.length_take, Nat.min_eq_left hr'] at hlen
      exact hlen
    subst hrr
    cases he : out.ending with
    | satisfied => exact Or.inr (hd.satisfied he)
    | unready => exact Or.inl (hd.unready he).1
    | missing => exact Or.inl (hneg (by simpa [answerOf, he] using herr))
    | refused => exact Or.inl (hneg (by simpa [answerOf, he] using herr))
  · intro hok
    refine ⟨r, hd.le_stored, hd.records, hstores hd.rest, ?_, ?_⟩
    · intro hpos
      have he := hd.satisfied_iff.mpr (hok.resolve_left (Nat.ne_of_gt hpos))
      simp [answerOf, he, hlen]
    · intro hneg
      rcases hok with h0 | hn
      · exact h0
      · have he := hd.satisfied_iff.mpr hn
        simp only [answerOf, he] at hneg
        have hnonneg : (0 : ℤ) ≤ width * ((0 : ℕ) + out.records.length) :=
          Int.mul_nonneg (Int.natCast_nonneg _)
            (Int.add_nonneg (Int.natCast_nonneg _) (Int.natCast_nonneg _))
        exact absurd hneg (Int.not_lt.mpr hnonneg)

theorem eq_zero_iff (hd : Delivers D View accept n 0 b s q (D.drain accept n 0 s) r)
    (hv : Viewed D View) (hs : View b s q) (hb : n ≤ b ∨ q.length < b) (hn : 0 < n) :
    r = 0 ↔ D.ready s = false ∨ D.front s = none ∨ accept 0 = false := by
  have hfront : D.front s = q.head? := by
    obtain ⟨b, rfl⟩ : ∃ b', b = b' + 1 := Nat.exists_eq_succ_of_ne_zero (by omega)
    exact hv.front hs
  constructor
  · intro hr0
    cases he : (D.drain accept n 0 s).ending with
    | satisfied =>
      have hrn := hd.satisfied he
      omega
    | unready => exact Or.inl (hd.unready he).2.1
    | missing =>
      have hq : q = [] := List.length_eq_zero_iff.mp ((hd.missing he).1.symm.trans hr0)
      rw [hfront, hq, List.head?_nil]
      exact Or.inr (Or.inl rfl)
    | refused =>
      have hrefuse := (hd.refused he).1
      rw [hr0] at hrefuse
      exact Or.inr (Or.inr hrefuse)
  · rintro (hready | hnone | hrefuse)
    · have he : (D.drain accept n 0 s).ending = .unready := by
        obtain ⟨n, rfl⟩ := Nat.exists_eq_succ_of_ne_zero (Nat.ne_of_gt hn)
        rw [drain_unready hready]
      exact (hd.unready he).1
    · have hle := hd.le_stored
      rw [List.head?_eq_none_iff.mp (hfront.symm.trans hnone)] at hle
      exact Nat.le_zero.mp hle
    · by_contra hr
      rw [hd.accepted 0 (Nat.pos_of_ne_zero hr)] at hrefuse
      exact Bool.false_ne_true hrefuse.symm

theorem eq_request_of (hd : Delivers D View accept n 0 b s q (D.drain accept n 0 s) r)
    (hn : n ≤ q.length) (hacc : ∀ i < n, accept i = true) : r = 0 ∨ r = n := by
  cases he : (D.drain accept n 0 s).ending with
  | satisfied => exact Or.inr (hd.satisfied he)
  | unready => exact Or.inl (hd.unready he).1
  | missing =>
    obtain ⟨hrq, hrn⟩ := hd.missing he
    omega
  | refused =>
    obtain ⟨hrefuse, hrn⟩ := hd.refused he
    rw [Nat.zero_add, hacc r hrn] at hrefuse
    exact absurd hrefuse.symm Bool.false_ne_true

theorem none_or_all_iff (hd : Delivers D View accept n 0 b s q (D.drain accept n 0 s) r)
    (hv : Viewed D View) (hs : View b s q) (hb : n ≤ b ∨ q.length < b) :
    (r = 0 ∨ r = n) ↔ D.ready s = false ∨ D.front s = none ∨ accept 0 = false ∨
      (n ≤ q.length ∧ ∀ i < n, accept i = true) := by
  rcases Nat.eq_zero_or_pos n with rfl | hn
  · have hr := hd.le_request
    simp only [Nat.zero_le, Nat.not_lt_zero, false_implies, implies_true, and_self, or_true,
      iff_true]
    omega
  · have hzero := hd.eq_zero_iff hv hs hb hn
    constructor
    · rintro (hr | hr)
      · rcases hzero.mp hr with h | h | h
        · exact Or.inl h
        · exact Or.inr (Or.inl h)
        · exact Or.inr (Or.inr (Or.inl h))
      · subst hr
        refine Or.inr (Or.inr (Or.inr ⟨hd.le_stored, fun i hi => ?_⟩))
        simpa using hd.accepted i hi
    · rintro (h | h | h | ⟨hle, hacc⟩)
      · exact Or.inl (hzero.mpr (Or.inl h))
      · exact Or.inl (hzero.mpr (Or.inr (Or.inl h)))
      · exact Or.inl (hzero.mpr (Or.inr (Or.inr h)))
      · exact hd.eq_request_of hle hacc

end Delivers

end LinuxOddsAndEnds.Foundation
