import Mathlib.Data.List.Chain
import Mathlib.Data.List.Nodup
import Mathlib.Logic.Function.Basic

/-!
# Circular lists through embedded links

Objects carry a `next` and a `prev` link, and a list is a ring of links through its head.
The operations store single links and know nothing of the entries. `Holds` says which
entries a ring has; every operation is specified by what it does to that list, and walking
along the links finds exactly its entries.
-/

namespace LinuxOddsAndEnds.Foundation

variable {α : Type*}

structure Links (α : Type*) where
  next : α → α
  prev : α → α

namespace Links

/-- `b` follows `a`, seen from both. -/
def Joined (l : Links α) (a b : α) : Prop := l.next a = b ∧ l.prev b = a

/-- The ring of `head` has the entries `xs`, in this order. -/
structure Holds (l : Links α) (head : α) (xs : List α) : Prop where
  nodup : (head :: xs).Nodup
  joined : (head :: (xs ++ [head])).IsChain l.Joined

section Operations

variable [DecidableEq α]

def init (l : Links α) (head : α) : Links α :=
  ⟨Function.update l.next head head, Function.update l.prev head head⟩

/-- Four stores put `new` between `p` and `n`. -/
def insert (l : Links α) (new p n : α) : Links α where
  next := Function.update (Function.update l.next new n) p new
  prev := Function.update (Function.update l.prev n new) new p

/-- Behind the head. -/
def add (l : Links α) (new head : α) : Links α := l.insert new head (l.next head)

/-- Before the head. -/
def addTail (l : Links α) (new head : α) : Links α := l.insert new (l.prev head) head

/-- The neighbours of `e` are joined, and its own links are spoilt. -/
def del (l : Links α) (poison₁ poison₂ e : α) : Links α where
  next := Function.update (Function.update l.next (l.prev e) (l.next e)) e poison₁
  prev := Function.update (Function.update l.prev (l.next e) (l.prev e)) e poison₂

section Loops

variable {σ : Type*} (links : σ → Links α)

/-- `body` at every position from `pos` up to the head; `none` if there is no end within `fuel`
steps. -/
def forEach (body : α → σ → σ) (head : α) : ℕ → α → σ → Option σ
  | 0, pos, s => if pos = head then some s else none
  | fuel + 1, pos, s =>
    if pos = head then some s
    else forEach body head fuel ((links (body pos s)).next pos) (body pos s)

/-- The same, but the link to the next position is read before the body runs. -/
def forEachSafe (read body : α → σ → σ) (head : α) : ℕ → α → σ → Option σ
  | 0, pos, s => if pos = head then some (read pos s) else none
  | fuel + 1, pos, s =>
    if pos = head then some (read pos s)
    else forEachSafe read body head fuel ((links s).next pos) (body pos (read pos s))

end Loops

end Operations

section Chains

variable {l l' : Links α} {L : List α}

/-- A chain depends on the forward links of all but its last object, and on the backward links
of all but its first. -/
theorem joined_congr (h : L.IsChain l.Joined) (hnext : ∀ a ∈ L.dropLast, l'.next a = l.next a)
    (hprev : ∀ b ∈ L.tail, l'.prev b = l.prev b) : L.IsChain l'.Joined := by
  induction L with
  | nil => exact .nil
  | cons a L ih =>
    cases L with
    | nil => exact .singleton a
    | cons b L =>
      rw [List.isChain_cons_cons] at h ⊢
      refine ⟨⟨?_, ?_⟩, ih h.2 (fun c hc => hnext c ?_) (fun c hc => hprev c ?_)⟩
      · rw [hnext a (by simp)]
        exact h.1.1
      · rw [hprev b (by simp)]
        exact h.1.2
      · rw [List.dropLast_cons_cons]
        exact List.mem_cons_of_mem a hc
      · exact List.mem_cons_of_mem b hc

theorem next_eq {a head : α} {xs : List α} (h : (a :: (xs ++ [head])).IsChain l.Joined) :
    l.next a = xs.headD head := by
  cases xs with
  | nil => exact (List.isChain_pair.mp h).1
  | cons x xs => exact (List.isChain_cons_cons.mp h).1.1

theorem Holds.next_head {head : α} {xs : List α} (h : l.Holds head xs) :
    l.next head = xs.headD head := next_eq h.joined

variable {head a p n : α} {xs ys R : List α}

theorem exists_ends (head : α) (xs ys : List α) : ∃ L p n R, head :: xs = L ++ [p] ∧
    ys ++ [head] = n :: R := by
  refine ⟨(head :: xs).dropLast, (head :: xs).getLast (List.cons_ne_nil head xs),
    (ys ++ [head]).head (by simp), (ys ++ [head]).tail, ?_, ?_⟩
  · exact (List.dropLast_append_getLast _).symm
  · exact (List.cons_head_tail _).symm

theorem ring_eq (hp : head :: xs = L ++ [p]) (hn : ys ++ [head] = n :: R) (mid : List α) :
    head :: (xs ++ (mid ++ ys) ++ [head]) = L ++ p :: (mid ++ n :: R) := by
  calc head :: (xs ++ (mid ++ ys) ++ [head]) = head :: xs ++ (mid ++ (ys ++ [head])) := by simp
    _ = L ++ p :: (mid ++ n :: R) := by rw [hp, hn, List.append_assoc, List.singleton_append]

/-- Both parts of a ring survive stores to the forward link of the last object of the first part
and to the backward link of the first object of the second. -/
theorem parts_congr (hnodup : (head :: (xs ++ ys)).Nodup) (hp : head :: xs = L ++ [p])
    (hn : ys ++ [head] = n :: R) (hleft : (L ++ [p]).IsChain l.Joined)
    (hright : (n :: R).IsChain l.Joined)
    (hnext : ∀ a ∈ head :: (xs ++ ys), a ≠ p → l'.next a = l.next a)
    (hprev : ∀ b ∈ head :: (xs ++ ys), b ≠ n → l'.prev b = l.prev b) :
    (L ++ [p]).IsChain l'.Joined ∧ (n :: R).IsChain l'.Joined := by
  have hfirst : (L ++ [p]).Nodup := by
    rw [← hp]
    exact hnodup.sublist (by simp)
  have hsecond : (n :: R).Nodup := by
    rw [← hn, List.nodup_append_comm]
    exact hnodup.sublist (by simp)
  have hdisjoint : ∀ a ∈ ys, a ∉ head :: xs := by
    intro a ha hmem
    have h := hnodup
    rw [← List.cons_append, List.nodup_append'] at h
    exact h.2.2 hmem ha
  constructor
  · refine joined_congr hleft (fun a ha => ?_) (fun b hb => ?_)
    · rw [List.dropLast_concat] at ha
      refine hnext a ?_ ?_
      · have hmem : a ∈ head :: xs := hp ▸ List.mem_append_left _ ha
        rw [← List.cons_append]
        exact List.mem_append_left _ hmem
      · rintro rfl
        exact (List.nodup_append'.mp hfirst).2.2 ha (List.mem_singleton_self a)
    · rw [← hp, List.tail_cons] at hb
      refine hprev b (by simp [hb]) ?_
      rintro rfl
      have hmem : b ∈ ys ++ [head] := hn ▸ List.mem_cons_self
      rcases List.mem_append.mp hmem with hys | hhead
      · exact hdisjoint b hys (List.mem_cons_of_mem _ hb)
      · rw [List.mem_singleton.mp hhead] at hb
        exact (List.nodup_cons.mp hnodup).1 (List.mem_append_left _ hb)
  · refine joined_congr hright (fun a ha => ?_) (fun b hb => ?_)
    · rw [← hn, List.dropLast_concat] at ha
      refine hnext a (by simp [ha]) ?_
      rintro rfl
      exact hdisjoint a ha (hp ▸ List.mem_append_right _ (List.mem_singleton_self a))
    · rw [List.tail_cons] at hb
      have hmem : b ∈ ys ++ [head] := hn ▸ List.mem_cons_of_mem n hb
      refine hprev b ?_ ?_
      · rcases List.mem_append.mp hmem with hys | hhead
        · simp [hys]
        · rw [List.mem_singleton.mp hhead]
          exact List.mem_cons_self
      · rintro rfl
        exact (List.nodup_cons.mp hsecond).1 hb

theorem Holds.next_mem (h : l.Holds head xs) (ha : a ∈ head :: xs) : l.next a ∈ head :: xs := by
  obtain ⟨ys, zs, hsplit⟩ := List.append_of_mem ha
  have hchain := h.joined
  rw [← List.cons_append, hsplit, List.append_assoc] at hchain
  have hnext : l.next a = zs.headD head := next_eq hchain.right_of_append
  rw [hnext]
  cases zs with
  | nil => exact List.mem_cons_self
  | cons z zs =>
    rw [hsplit]
    simp

theorem Holds.prev_mem (h : l.Holds head xs) (ha : a ∈ head :: xs) : l.prev a ∈ head :: xs := by
  have hmem : a ∈ xs ++ [head] := by
    rw [List.mem_append, List.mem_singleton, or_comm]
    exact List.mem_cons.mp ha
  obtain ⟨ys, zs, hsplit⟩ := List.append_of_mem hmem
  obtain ⟨L, p, n, R, hp, -⟩ := exists_ends head ys zs
  have hchain := h.joined
  rw [hsplit, ← List.cons_append, hp, List.append_assoc, List.singleton_append,
    List.isChain_append_cons_cons] at hchain
  rw [hchain.2.1.2]
  have hpmem : p ∈ head :: ys := hp ▸ List.mem_append_right L (List.mem_singleton_self p)
  rcases List.mem_cons.mp hpmem with hhead | hys
  · rw [hhead]
    exact List.mem_cons_self
  · have hring : p ∈ xs ++ [head] := by
      rw [hsplit]
      exact List.mem_append_left _ hys
    rw [List.mem_append, List.mem_singleton, or_comm] at hring
    exact List.mem_cons.mpr hring

end Chains

section Rings

variable [DecidableEq α] {l : Links α} {head new e p n poison₁ poison₂ : α} {xs ys L R : List α}

theorem holds_init (l : Links α) (head : α) : (l.init head).Holds head [] where
  nodup := List.nodup_singleton head
  joined := by simp [Joined, init]

theorem Holds.insert (h : l.Holds head (xs ++ ys)) (hnew : new ∉ head :: (xs ++ ys))
    (hp : head :: xs = L ++ [p]) (hn : ys ++ [head] = n :: R) :
    (l.insert new p n).Holds head (xs ++ new :: ys) := by
  have hchain := h.joined
  have hpmem : p ∈ head :: (xs ++ ys) := by
    rw [← List.cons_append, hp]
    simp
  have hnmem : n ∈ head :: (xs ++ ys) := by
    have hmem : n ∈ ys ++ [head] := hn ▸ List.mem_cons_self
    simp only [List.mem_append, List.mem_cons] at hmem ⊢
    tauto
  have hpne : p ≠ new := fun he => hnew (he ▸ hpmem)
  have hnne : n ≠ new := fun he => hnew (he ▸ hnmem)
  have hring := ring_eq hp hn []
  rw [List.nil_append, List.nil_append] at hring
  rw [hring, List.isChain_append_cons_cons] at hchain
  obtain ⟨hleft, -, hright⟩ := hchain
  have hparts : (L ++ [p]).IsChain (l.insert new p n).Joined ∧
      (n :: R).IsChain (l.insert new p n).Joined := by
    refine parts_congr h.nodup hp hn hleft hright (fun a ha hap => ?_) (fun b hb hbn => ?_)
    · have hane : a ≠ new := fun he => hnew (he ▸ ha)
      simp [Links.insert, hap, hane]
    · have hbne : b ≠ new := fun he => hnew (he ▸ hb)
      simp [Links.insert, hbn, hbne]
  constructor
  · rw [← List.cons_append, List.nodup_middle, List.cons_append]
    exact List.nodup_cons.mpr ⟨hnew, h.nodup⟩
  · have hnewring := ring_eq hp hn [new]
    rw [List.singleton_append, List.singleton_append] at hnewring
    rw [hnewring, List.isChain_append_cons_cons, List.isChain_cons_cons]
    refine ⟨hparts.1, ⟨?_, ?_⟩, ⟨?_, ?_⟩, hparts.2⟩
    · simp [Links.insert]
    · simp [Links.insert]
    · simp [Links.insert, hpne.symm]
    · simp [Links.insert, hnne]

theorem Holds.add (h : l.Holds head xs) (hnew : new ∉ head :: xs) :
    (l.add new head).Holds head (new :: xs) := by
  have hring : l.Holds head ([] ++ xs) := h
  have hp : [head] = [] ++ [head] := rfl
  have hn : xs ++ [head] = xs.headD head :: (xs ++ [head]).tail := by cases xs <;> rfl
  rw [Links.add, h.next_head]
  exact hring.insert hnew hp hn

theorem Holds.addTail (h : l.Holds head xs) (hnew : new ∉ head :: xs) :
    (l.addTail new head).Holds head (xs ++ [new]) := by
  obtain ⟨L, p, n, R, hp, hn⟩ := exists_ends head xs []
  obtain ⟨rfl, rfl⟩ := List.cons.inj hn
  have hring : l.Holds head (xs ++ []) := by rwa [List.append_nil]
  have hchain := h.joined
  have hsplit := ring_eq hp hn []
  rw [List.nil_append, List.nil_append, List.append_nil] at hsplit
  rw [hsplit, List.isChain_append_cons_cons] at hchain
  rw [Links.addTail, hchain.2.1.2]
  refine hring.insert ?_ hp hn
  rwa [List.append_nil]

theorem Holds.del (h : l.Holds head (xs ++ e :: ys)) (poison₁ poison₂ : α) :
    (l.del poison₁ poison₂ e).Holds head (xs ++ ys) := by
  obtain ⟨L, p, n, R, hp, hn⟩ := exists_ends head xs ys
  have hchain := h.joined
  have hsplit := ring_eq hp hn [e]
  rw [List.singleton_append, List.singleton_append] at hsplit
  rw [hsplit, List.isChain_append_cons_cons, List.isChain_cons_cons] at hchain
  obtain ⟨hleft, hpe, hen, hright⟩ := hchain
  have hall : (e :: head :: (xs ++ ys)).Nodup := by
    have hnodup := h.nodup
    rwa [← List.cons_append, List.nodup_middle, List.cons_append] at hnodup
  obtain ⟨he, hnodup⟩ := List.nodup_cons.mp hall
  have hpe' : p ≠ e := by
    rintro rfl
    refine he ?_
    rw [← List.cons_append, hp]
    simp
  have hne : n ≠ e := by
    rintro rfl
    have hmem : n ∈ ys ++ [head] := hn ▸ List.mem_cons_self
    refine he ?_
    simp only [List.mem_append, List.mem_cons] at hmem ⊢
    tauto
  have hparts : (L ++ [p]).IsChain (l.del poison₁ poison₂ e).Joined ∧
      (n :: R).IsChain (l.del poison₁ poison₂ e).Joined := by
    refine parts_congr hnodup hp hn hleft hright (fun a ha hap => ?_) (fun b hb hbn => ?_)
    · have hae : a ≠ e := fun hae => he (hae ▸ ha)
      simp [Links.del, hpe.2, hap, hae]
    · have hbe : b ≠ e := fun hbe => he (hbe ▸ hb)
      simp [Links.del, hen.1, hbn, hbe]
  refine ⟨hnodup, ?_⟩
  have hring := ring_eq hp hn []
  rw [List.nil_append, List.nil_append] at hring
  rw [hring, List.isChain_append_cons_cons]
  refine ⟨hparts.1, ⟨?_, ?_⟩, hparts.2⟩
  · simp [Links.del, hpe.2, hen.1, hpe']
  · simp [Links.del, hpe.2, hen.1, hne]

theorem Holds.erase (h : l.Holds head xs) (he : e ∈ xs) (poison₁ poison₂ : α) :
    (l.del poison₁ poison₂ e).Holds head (xs.erase e) := by
  obtain ⟨ys, zs, -, hxs, herase⟩ := List.exists_erase_eq he
  rw [hxs] at h
  rw [herase]
  exact h.del poison₁ poison₂

end Rings

section Loops

variable {σ : Type*} [DecidableEq α] {links : σ → Links α} {body : α → σ → σ} {head : α}
  {poison₁ poison₂ : α} {s : σ} {xs : List α} {fuel : ℕ}

theorem forEach_eq (hbody : ∀ a s, links (body a s) = links s)
    (hchain : (xs ++ [head]).IsChain (links s).Joined) (hhead : head ∉ xs)
    (hfuel : xs.length ≤ fuel) : forEach links body head fuel (xs.headD head) s =
      some (xs.foldl (fun s a => body a s) s) := by
  induction xs generalizing fuel s with
  | nil => cases fuel <;> simp [forEach]
  | cons x xs ih =>
    rw [List.mem_cons, not_or] at hhead
    obtain ⟨hne, hhead⟩ := hhead
    obtain ⟨fuel, rfl⟩ : ∃ m, fuel = m + 1 :=
      Nat.exists_eq_succ_of_ne_zero (Nat.pos_iff_ne_zero.mp (Nat.zero_lt_of_lt hfuel))
    have hrest : (xs ++ [head]).IsChain (links (body x s)).Joined := by
      rw [hbody]
      exact hchain.tail
    rw [List.headD_cons, forEach, if_neg (Ne.symm hne), hbody, next_eq hchain,
      ih hrest hhead (Nat.le_of_succ_le_succ hfuel), List.foldl_cons]

/-- A loop whose body leaves the links as they are comes to every entry, in order. -/
theorem Holds.forEach (h : (links s).Holds head xs) (hbody : ∀ a s, links (body a s) = links s)
    (hfuel : xs.length ≤ fuel) : Links.forEach links body head fuel ((links s).next head) s =
      some (xs.foldl (fun s a => body a s) s) := by
  rw [h.next_head]
  exact forEach_eq hbody h.joined.tail (List.nodup_cons.mp h.nodup).1 hfuel

/-- A safe loop whose body deletes the entry comes to every entry and leaves the ring empty. -/
theorem Holds.forEachSafe (h : (links s).Holds head xs) (read body : α → σ → σ)
    (hread : ∀ a s, links (read a s) = links s)
    (hbody : ∀ a s, links (body a s) = (links s).del poison₁ poison₂ a)
    (hfuel : xs.length ≤ fuel) :
    Links.forEachSafe links read body head fuel ((links s).next head) s =
        some (read head (xs.foldl (fun s a => body a (read a s)) s)) ∧
      (links (xs.foldl (fun s a => body a (read a s)) s)).Holds head [] := by
  rw [h.next_head]
  induction xs generalizing fuel s with
  | nil => exact ⟨by cases fuel <;> simp [Links.forEachSafe], h⟩
  | cons x xs ih =>
    have hne : x ≠ head := fun he => (List.nodup_cons.mp h.nodup).1 (he ▸ List.mem_cons_self)
    obtain ⟨fuel, rfl⟩ : ∃ m, fuel = m + 1 :=
      Nat.exists_eq_succ_of_ne_zero (Nat.pos_iff_ne_zero.mp (Nat.zero_lt_of_lt hfuel))
    have hring : (links s).Holds head ([] ++ x :: xs) := h
    have hrest : (links (body x (read x s))).Holds head xs := by
      rw [hbody, hread]
      exact hring.del poison₁ poison₂
    rw [List.headD_cons, Links.forEachSafe, if_neg hne, next_eq h.joined.tail, List.foldl_cons]
    exact ih hrest (Nat.le_of_succ_le_succ hfuel)

end Loops

end Links

end LinuxOddsAndEnds.Foundation
