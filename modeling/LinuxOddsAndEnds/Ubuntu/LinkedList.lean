import LinuxOddsAndEnds.Foundation.IntrusiveList
import LinuxOddsAndEnds.Foundation.Resources
import Mathlib.Data.Int.Notation

/-!
# The linked list demonstration

`linked_list_demo` of `2_linked_list/linked_list.c`, for any number of elements and every
pattern of failing allocations: the ring behind `list_add`, `list_add_tail` and `list_del`, the
lines that it prints, and every object that it allocates, looks at and frees.
-/

namespace LinuxOddsAndEnds.Ubuntu.LinkedList

open Foundation

/-- What a pointer may point to; `nodes` is the array. -/
inductive Object where
  | headNode
  | nodes
  | node (i : ℕ)
  | null
  | poison1
  | poison2
  deriving DecidableEq

inductive Line where
  | text (s : String)
  | allocFailure (i : ℕ)
  | arrayNode (i : ℕ) (number : ℤ)
  | listNode (number : ℤ)
  | freeNode (number : ℤ)
  deriving DecidableEq

inductive Seen where
  | memory (e : ResourceEvent Object)
  | printed (line : Line)
  deriving DecidableEq

/-- The fields of the nodes, and what was done so far. -/
structure Demo where
  links : Links Object
  number : Object → ℤ
  seen : List Seen

def Demo.log (s : Demo) (seen : List Seen) : Demo := { s with seen := s.seen ++ seen }

def Demo.use (s : Demo) (os : List Object) : Demo := s.log (os.map fun o => .memory (.use o))

def Demo.print (s : Demo) (line : Line) : Demo := s.log [.printed line]

def Demo.setNumber (s : Demo) (o : Object) (number : ℤ) : Demo :=
  { s with number := Function.update s.number o number }

def Demo.onLinks (s : Demo) (f : Links Object → Links Object) : Demo :=
  { s with links := f s.links }

/-- `list_add(&(nodes[i]->list_), &(head_node->list_))`. -/
def Demo.listAdd (i : ℕ) (s : Demo) : Demo :=
  (s.use [.nodes, .headNode, s.links.next .headNode, .node i, .node i, .headNode]).onLinks
    fun l => l.add (.node i) .headNode

/-- `list_add_tail(&(nodes[i]->list_), &(head_node->list_))`. -/
def Demo.listAddTail (i : ℕ) (s : Demo) : Demo :=
  (s.use [.nodes, .headNode, .headNode, .node i, .node i, s.links.prev .headNode]).onLinks
    fun l => l.addTail (.node i) .headNode

def Demo.listDel (o : Object) (s : Demo) : Demo :=
  (s.use [o, o, s.links.next o, s.links.prev o, o, o]).onLinks fun l => l.del .poison1 .poison2 o

/-- One turn of the loop that allocates and numbers the nodes. -/
def Demo.allocNode (i : ℕ) (s : Demo) : Demo :=
  ((s.log [.memory (.acquire (.node i))]).use [.nodes, .nodes, .node i]).setNumber (.node i) i

/-- `k` turns of the loop from `i` on, and the index at which `kzalloc` fails. -/
def Demo.allocNodes (succeeds : Object → Bool) : ℕ → ℕ → Demo → Option ℕ × Demo
  | _, 0, s => (none, s)
  | i, k + 1, s =>
    if succeeds (.node i) then allocNodes succeeds (i + 1) k (s.allocNode i)
    else (some i, s.use [.nodes])

/-- `while ((i-1) > 0)`. -/
def Demo.freeBefore : ℕ → Demo → Demo
  | 0, s | 1, s => s
  | i + 2, s => freeBefore (i + 1) ((s.use [.nodes]).log [.memory (.release (.node (i + 1)))])

def Demo.showArrayNode (i : ℕ) (s : Demo) : Demo :=
  (s.use [.nodes, .node i]).print (.arrayNode i (s.number (.node i)))

def Demo.showArray (n : ℕ) (s : Demo) : Demo :=
  (List.range n).foldl (fun s i => s.showArrayNode i) (s.print (.text "nodes[] iteration : "))

/-- The body of `list_for_each_entry`, and the step to the next entry. -/
def Demo.showEntry (o : Object) (s : Demo) : Demo :=
  ((s.use [o]).print (.listNode (s.number o))).use [o]

def Demo.showList (fuel : ℕ) (s : Demo) : Option Demo :=
  Links.forEach Demo.links Demo.showEntry .headNode fuel (s.links.next .headNode)
    (s.use [.headNode])

/-- `list_for_each_safe` around `list_del`. -/
def Demo.removeAll (fuel : ℕ) (s : Demo) : Option Demo :=
  Links.forEachSafe Demo.links (fun o s => s.use [o]) Demo.listDel .headNode fuel
    (s.links.next .headNode) (s.use [.headNode])

/-- Either of the two tests. -/
def Demo.insertionTest (fuel n : ℕ) (title : String) (insert : ℕ → Demo → Demo) (s : Demo) :
    Option Demo := do
  let s := (List.range n).foldl (fun s i => insert i s) (s.print (.text title))
  let s ← (s.showArray n).showList fuel
  let s := ((s.print (.text "delete 5th node")).use [.nodes]).listDel (.node 5)
  let s ← (s.showArray n).showList fuel
  s.removeAll fuel

def Demo.freeNode (i : ℕ) (s : Demo) : Demo :=
  (((s.use [.nodes, .node i]).print (.freeNode (s.number (.node i)))).use [.nodes]).log
    [.memory (.release (.node i))]

def Demo.freeAll (n : ℕ) (s : Demo) : Demo :=
  let s := (List.range n).foldl (fun s i => s.freeNode i) (s.print (.text "free nodes[] : "))
  (((s.print (.text "free node array")).log [.memory (.release .nodes)]).print
    (.text "free head node")).log [.memory (.release .headNode)]

/-- The head and the array. -/
def Demo.allocHead (s : Demo) : Demo :=
  (((s.log [.memory (.acquire .headNode)]).use [.headNode, .headNode, .headNode]).setNumber
    .headNode (-1)).onLinks fun l => l.init .headNode

def entered : Demo := ⟨⟨fun _ => .null, fun _ => .null⟩, fun _ => 0, []⟩

/-- The allocation of the array is not checked, and the first store through it is the end. -/
def linkedListDemo (fuel n : ℕ) (succeeds : Object → Bool) : Option Demo :=
  if succeeds .headNode then
    let s := entered.allocHead
    if succeeds .nodes then
      match (s.log [.memory (.acquire .nodes)]).allocNodes succeeds 0 n with
      | (some i, s) =>
        some (((s.print (.allocFailure i)).freeBefore i).log [.memory (.release .nodes)])
      | (none, s) => do
        let s ← s.insertionTest fuel n "***** HEAD INSERTION TEST ***** " Demo.listAdd
        let s ← s.insertionTest fuel n "***** TAIL INSERTION TEST ***** " Demo.listAddTail
        pure (s.freeAll n)
    else if succeeds (.node 0) then some ((s.log [.memory (.acquire (.node 0))]).use [.null])
    else some (s.use [.null])
  else some (entered.print (.text "head node kzalloc() failure"))

def memory (seen : List Seen) : List (ResourceEvent Object) :=
  seen.filterMap fun | .memory e => some e | _ => none

def printed (seen : List Seen) : List Line :=
  seen.filterMap fun | .printed line => some line | _ => none

/-- What a run that allocates everything works with. -/
def allocated (n : ℕ) : Set Object :=
  {o | o = .headNode ∨ o = .nodes ∨ ∃ i < n, o = .node i}

def Numbered (n : ℕ) (s : Demo) : Prop := ∀ i < n, s.number (.node i) = i

/-- The nodes with these numbers are listed, and were allocated. -/
structure Ring (n : ℕ) (is : List ℕ) (s : Demo) : Prop where
  holds : s.links.Holds .headNode (is.map .node)
  bound : ∀ i ∈ is, i < n

def arrayLines (n : ℕ) : List Line :=
  .text "nodes[] iteration : " :: (List.range n).map fun i : ℕ => .arrayNode i i

def listLines (is : List ℕ) : List Line := is.map fun i : ℕ => .listNode i

/-- What a test prints if it lists the nodes in this order. -/
def testLines (n : ℕ) (title : String) (order : List ℕ) : List Line :=
  .text title :: arrayLines n ++ listLines order ++ Line.text "delete 5th node" :: arrayLines n ++
    listLines (order.erase 5)

def freeLines (n : ℕ) : List Line :=
  Line.text "free nodes[] : " :: (List.range n).map (fun i : ℕ => Line.freeNode i) ++
    [Line.text "free node array", .text "free head node"]

/-- The lines of a run that allocates everything. -/
def lines (n : ℕ) : List Line :=
  testLines n "***** HEAD INSERTION TEST ***** " (List.range n).reverse ++
    testLines n "***** TAIL INSERTION TEST ***** " (List.range n) ++ freeLines n

/-- A part of the demonstration prints `lines`, looks at objects in `H` and renumbers none. -/
structure Shows (H : Set Object) (lines : List Line) (s s' : Demo) : Prop where
  memory : ∃ uses : List Object, (∀ o ∈ uses, o ∈ H) ∧
    memory s'.seen = memory s.seen ++ uses.map .use
  printed : printed s'.seen = printed s.seen ++ lines
  number : s'.number = s.number

section Parts

variable {H : Set Object} {lines lines' : List Line} {s s' s'' : Demo} {os : List Object}

@[simp] theorem memory_append (seen seen' : List Seen) :
    memory (seen ++ seen') = memory seen ++ memory seen' := List.filterMap_append

@[simp] theorem printed_append (seen seen' : List Seen) :
    printed (seen ++ seen') = printed seen ++ printed seen' := List.filterMap_append

theorem memory_uses (os : List Object) :
    memory (os.map fun o => .memory (.use o)) = os.map .use := by
  induction os with
  | nil => rfl
  | cons o os ih => exact congrArg (List.cons _) ih

theorem printed_uses (os : List Object) : printed (os.map fun o => .memory (.use o)) = [] := by
  induction os with
  | nil => rfl
  | cons o os ih => exact ih

theorem shows_self (H : Set Object) (s : Demo) : Shows H [] s s := ⟨⟨[], by simp⟩, by simp, rfl⟩

theorem Shows.trans (h : Shows H lines s s') (h' : Shows H lines' s' s'') :
    Shows H (lines ++ lines') s s'' := by
  obtain ⟨uses, huses, hmemory⟩ := h.memory
  obtain ⟨uses', huses', hmemory'⟩ := h'.memory
  refine ⟨⟨uses ++ uses', fun o ho => ?_, ?_⟩, ?_, h'.number.trans h.number⟩
  · exact (List.mem_append.mp ho).elim (huses o) (huses' o)
  · rw [hmemory', hmemory, List.map_append, List.append_assoc]
  · rw [h'.printed, h.printed, List.append_assoc]

theorem Shows.use (h : Shows H lines s s') (hos : ∀ o ∈ os, o ∈ H) :
    Shows H lines s (s'.use os) := by
  have hstep : Shows H [] s' (s'.use os) :=
    ⟨⟨os, hos, by simp [Demo.use, Demo.log, memory_uses]⟩,
      by simp [Demo.use, Demo.log, printed_uses], rfl⟩
  simpa using h.trans hstep

theorem Shows.print (h : Shows H lines s s') (line : Line) :
    Shows H (lines ++ [line]) s (s'.print line) :=
  h.trans ⟨⟨[], by simp [Demo.print, Demo.log, LinkedList.memory]⟩,
    by simp [Demo.print, Demo.log, LinkedList.printed], rfl⟩

theorem Shows.onLinks (h : Shows H lines s s') (f : Links Object → Links Object) :
    Shows H lines s (s'.onLinks f) := ⟨h.memory, h.printed, h.number⟩

theorem shows_foldl {ι : Type*} {P : Demo → Prop} {step : Demo → ι → Demo}
    {shown : ι → List Line} {l : List ι}
    (hstep : ∀ i ∈ l, ∀ s, P s → Shows H (shown i) s (step s i) ∧ P (step s i)) (hs : P s) :
    Shows H (l.flatMap shown) s (l.foldl step s) ∧ P (l.foldl step s) := by
  induction l generalizing s with
  | nil => exact ⟨shows_self H s, hs⟩
  | cons i l ih =>
    obtain ⟨hshows, hP⟩ := hstep i List.mem_cons_self s hs
    obtain ⟨hrest, hend⟩ := ih (fun j hj => hstep j (List.mem_cons_of_mem i hj)) hP
    exact ⟨hshows.trans hrest, hend⟩

end Parts

section Tests

variable {n i fuel : ℕ} {is : List ℕ} {s s' : Demo} {lines : List Line}

theorem headNode_mem (n : ℕ) : .headNode ∈ allocated n := Or.inl rfl

theorem nodes_mem (n : ℕ) : .nodes ∈ allocated n := Or.inr (Or.inl rfl)

theorem node_mem (hi : i < n) : .node i ∈ allocated n := Or.inr (Or.inr ⟨i, hi, rfl⟩)

theorem Shows.numbered {H : Set Object} (h : Shows H lines s s') (hnum : Numbered n s) :
    Numbered n s' := by
  rw [Numbered, h.number]
  exact hnum

theorem Ring.mem {o : Object} (h : Ring n is s) (ho : o ∈ Object.headNode :: is.map .node) :
    o ∈ allocated n := by
  rcases List.mem_cons.mp ho with rfl | hmem
  · exact headNode_mem n
  · obtain ⟨i, hi, rfl⟩ := List.mem_map.mp hmem
    exact node_mem (h.bound i hi)

theorem node_notMem (hnew : i ∉ is) : Object.node i ∉ Object.headNode :: is.map .node := by
  simpa using hnew

theorem listAdd_spec (h : Ring n is s) (hi : i < n) (hnew : i ∉ is) :
    Shows (allocated n) [] s (s.listAdd i) ∧ Ring n (i :: is) (s.listAdd i) := by
  have hnext := h.mem (h.holds.next_mem List.mem_cons_self)
  refine ⟨((shows_self _ s).use ?_).onLinks _, h.holds.add (node_notMem hnew), ?_⟩
  · simp [headNode_mem, nodes_mem, node_mem hi, hnext]
  · exact List.forall_mem_cons.mpr ⟨hi, h.bound⟩

theorem listAddTail_spec (h : Ring n is s) (hi : i < n) (hnew : i ∉ is) :
    Shows (allocated n) [] s (s.listAddTail i) ∧ Ring n (is ++ [i]) (s.listAddTail i) := by
  have hprev := h.mem (h.holds.prev_mem List.mem_cons_self)
  refine ⟨((shows_self _ s).use ?_).onLinks _, ?_, ?_⟩
  · simp [headNode_mem, nodes_mem, node_mem hi, hprev]
  · rw [List.map_append]
    exact h.holds.addTail (node_notMem hnew)
  · intro j hj
    rcases List.mem_append.mp hj with hold | hlast
    · exact h.bound j hold
    · rwa [List.mem_singleton.mp hlast]

theorem listDel_spec (h : Ring n is s) (hi : i ∈ is) :
    Shows (allocated n) [] s (s.listDel (.node i)) ∧ Ring n (is.erase i) (s.listDel (.node i)) := by
  have hmem : Object.node i ∈ is.map Object.node := List.mem_map_of_mem hi
  have hnext := h.mem (h.holds.next_mem (List.mem_cons_of_mem _ hmem))
  have hprev := h.mem (h.holds.prev_mem (List.mem_cons_of_mem _ hmem))
  refine ⟨((shows_self _ s).use ?_).onLinks _, ?_, fun j hj => h.bound j (List.mem_of_mem_erase hj)⟩
  · simp [node_mem (h.bound i hi), hnext, hprev]
  · have hinj : Function.Injective Object.node := fun _ _ he => Object.node.inj he
    rw [List.map_erase hinj]
    exact h.holds.erase hmem _ _

/-- What leaves the list and the numbers alone. -/
def Untouched (s t : Demo) : Prop := t.links = s.links ∧ t.number = s.number

theorem showArray_spec (hnum : Numbered n s) :
    Shows (allocated n) (arrayLines n) s (s.showArray n) ∧ Untouched s (s.showArray n) := by
  have hturn : ∀ i ∈ List.range n, ∀ t, Untouched s t →
      Shows (allocated n) [.arrayNode i i] t (t.showArrayNode i) ∧
        Untouched s (t.showArrayNode i) := by
    intro i hi t ht
    have hlt := List.mem_range.mp hi
    have huse : ∀ o ∈ [Object.nodes, .node i], o ∈ allocated n := by simp [nodes_mem, node_mem hlt]
    rw [Demo.showArrayNode, ht.2, hnum i hlt]
    exact ⟨((shows_self (allocated n) t).use huse).print (.arrayNode i i), ht⟩
  have htitle := (shows_self (allocated n) s).print (.text "nodes[] iteration : ")
  have hstart : Untouched s (s.print (.text "nodes[] iteration : ")) := ⟨rfl, rfl⟩
  obtain ⟨hturns, hsame⟩ := shows_foldl hturn hstart
  have hall := htitle.trans hturns
  rw [← List.map_eq_flatMap] at hall
  exact ⟨hall, hsame⟩

theorem showEntry_spec (hnum : Numbered n s) (hi : i < n) :
    Shows (allocated n) [.listNode i] s (s.showEntry (.node i)) := by
  have hmem : ∀ o ∈ [Object.node i], o ∈ allocated n := by simp [node_mem hi]
  rw [Demo.showEntry, hnum i hi]
  exact (((shows_self (allocated n) s).use hmem).print (.listNode i)).use hmem

theorem showList_spec (h : Ring n is s) (hnum : Numbered n s) (hfuel : is.length ≤ fuel) :
    ∃ s', s.showList fuel = some s' ∧ Shows (allocated n) (listLines is) s s' ∧
      Untouched s s' := by
  have hring : (s.use [.headNode]).links.Holds .headNode (is.map .node) := h.holds
  have hlength : (is.map Object.node).length ≤ fuel := by rwa [List.length_map]
  have hloop : s.showList fuel = some _ := hring.forEach (fun _ _ => rfl) hlength
  refine ⟨_, hloop, ?_⟩
  have hturn : ∀ i ∈ is, ∀ t, Untouched s t →
      Shows (allocated n) [.listNode i] t (t.showEntry (.node i)) ∧
        Untouched s (t.showEntry (.node i)) := by
    intro i hi t ht
    have hnum' : Numbered n t := by
      rw [Numbered, ht.2]
      exact hnum
    exact ⟨showEntry_spec hnum' (h.bound i hi), ht⟩
  have hmem : ∀ o ∈ [Object.headNode], o ∈ allocated n := by simp [headNode_mem]
  have hstart : Untouched s (s.use [.headNode]) := ⟨rfl, rfl⟩
  obtain ⟨hturns, hsame⟩ := shows_foldl hturn hstart
  have hall := ((shows_self (allocated n) s).use hmem).trans hturns
  rw [← List.map_eq_flatMap, List.nil_append] at hall
  rw [List.foldl_map]
  exact ⟨hall, hsame⟩

theorem removeEntries_spec (h : Ring n is s) : Shows (allocated n) [] s
    (is.foldl (fun t i => (t.use [.node i]).listDel (.node i)) s) := by
  induction is generalizing s with
  | nil => exact shows_self _ s
  | cons i is ih =>
    have hi : i ∈ i :: is := List.mem_cons_self
    have hmem : ∀ o ∈ [Object.node i], o ∈ allocated n := by simp [node_mem (h.bound i hi)]
    have hring : Ring n (i :: is) (s.use [.node i]) := ⟨h.holds, h.bound⟩
    obtain ⟨hdel, hrest⟩ := listDel_spec hring hi
    rw [List.erase_cons_head] at hrest
    exact (((shows_self (allocated n) s).use hmem).trans hdel).trans (ih hrest)

theorem removeAll_spec (h : Ring n is s) (hfuel : is.length ≤ fuel) :
    ∃ s', s.removeAll fuel = some s' ∧ Shows (allocated n) [] s s' ∧ Ring n [] s' := by
  have hmem : ∀ o ∈ [Object.headNode], o ∈ allocated n := by simp [headNode_mem]
  have hring : (s.use [.headNode]).links.Holds .headNode (is.map .node) := h.holds
  have hlength : (is.map Object.node).length ≤ fuel := by rwa [List.length_map]
  obtain ⟨hloop, hempty⟩ := hring.forEachSafe (fun o s => s.use [o]) Demo.listDel
    (fun _ _ => rfl) (fun _ _ => rfl) hlength
  rw [List.foldl_map] at hloop hempty
  have hshows := removeEntries_spec (s := s.use [.headNode]) ⟨h.holds, h.bound⟩
  refine ⟨_, hloop, ?_, hempty, by simp⟩
  exact (((shows_self (allocated n) s).use hmem).trans hshows).use hmem

/-- The order in which the entries stand after `k` insertions. -/
structure Inserts (n : ℕ) (insert : ℕ → Demo → Demo) (order : ℕ → List ℕ) : Prop where
  start : order 0 = []
  length : (order n).length = n
  fifth : 5 < n → 5 ∈ order n
  step : ∀ i < n, ∀ s, Ring n (order i) s →
    Shows (allocated n) [] s (insert i s) ∧ Ring n (order (i + 1)) (insert i s)

theorem inserts_listAdd (n : ℕ) :
    Inserts n Demo.listAdd fun k => (List.range k).reverse where
  start := rfl
  length := by simp
  fifth h := by simpa using h
  step i hi s h := by
    rw [List.range_succ, List.reverse_append]
    exact listAdd_spec h hi (by simp)

theorem inserts_listAddTail (n : ℕ) : Inserts n Demo.listAddTail List.range where
  start := rfl
  length := List.length_range
  fifth := List.mem_range.mpr
  step i hi s h := by
    rw [List.range_succ]
    exact listAddTail_spec h hi (by simp)

theorem fill_spec {insert : ℕ → Demo → Demo} {order : ℕ → List ℕ}
    (hinserts : Inserts n insert order) (h : Ring n [] s) :
    ∀ k ≤ n, Shows (allocated n) [] s ((List.range k).foldl (fun s i => insert i s) s) ∧
      Ring n (order k) ((List.range k).foldl (fun s i => insert i s) s) := by
  intro k
  induction k with
  | zero => exact fun _ => ⟨shows_self _ s, by rwa [hinserts.start]⟩
  | succ k ih =>
    intro hk
    obtain ⟨hshows, hring⟩ := ih (by omega)
    obtain ⟨hstep, hnext⟩ := hinserts.step k hk _ hring
    rw [List.range_succ, List.foldl_append]
    exact ⟨hshows.trans hstep, hnext⟩

theorem Untouched.ring (h : Untouched s s') (hring : Ring n is s) : Ring n is s' :=
  ⟨by rw [h.1]; exact hring.holds, hring.bound⟩

theorem insertionTest_spec {insert : ℕ → Demo → Demo} {order : ℕ → List ℕ} {title : String}
    (hinserts : Inserts n insert order) (h : Ring n [] s) (hnum : Numbered n s) (hn : 5 < n)
    (hfuel : n ≤ fuel) : ∃ s', s.insertionTest fuel n title insert = some s' ∧
      Shows (allocated n) (testLines n title (order n)) s s' ∧ Ring n [] s' := by
  have hlength := hinserts.length
  have herase := List.length_erase_le (a := 5) (l := order n)
  have htitle := (shows_self (allocated n) s).print (.text title)
  have hempty : Ring n [] (s.print (.text title)) := ⟨h.holds, h.bound⟩
  obtain ⟨hfill, hring⟩ := fill_spec hinserts hempty n le_rfl
  have hfilled := htitle.trans hfill
  obtain ⟨harray, hsame⟩ := showArray_spec (hfilled.numbered hnum)
  have hshown := hfilled.trans harray
  obtain ⟨s₁, hs₁, hlist, hsame₁⟩ :=
    showList_spec (hsame.ring hring) (hshown.numbered hnum) (hlength.le.trans hfuel)
  have hmem : ∀ o ∈ [Object.nodes], o ∈ allocated n := by simp [nodes_mem]
  have hlisted := ((hshown.trans hlist).print (.text "delete 5th node")).use hmem
  have hring₁ := hsame₁.ring (hsame.ring hring)
  obtain ⟨hdel, hring₂⟩ : Shows (allocated n) [] ((s₁.print (.text "delete 5th node")).use [.nodes])
      (((s₁.print (.text "delete 5th node")).use [.nodes]).listDel (.node 5)) ∧
        Ring n ((order n).erase 5)
          (((s₁.print (.text "delete 5th node")).use [.nodes]).listDel (.node 5)) :=
    listDel_spec ⟨hring₁.holds, hring₁.bound⟩ (hinserts.fifth hn)
  have hdeleted := hlisted.trans hdel
  obtain ⟨harray₂, hsame₂⟩ := showArray_spec (hdeleted.numbered hnum)
  have hshown₂ := hdeleted.trans harray₂
  have hrest : ((order n).erase 5).length ≤ fuel := herase.trans (hlength.le.trans hfuel)
  obtain ⟨s₂, hs₂, hlist₂, hsame₃⟩ :=
    showList_spec (hsame₂.ring hring₂) (hshown₂.numbered hnum) hrest
  obtain ⟨s₃, hs₃, hremove, hend⟩ := removeAll_spec (hsame₃.ring (hsame₂.ring hring₂)) hrest
  refine ⟨s₃, ?_, ?_, hend⟩
  · simp [Demo.insertionTest, hs₁, hs₂, hs₃]
  · have hall := (hshown₂.trans hlist₂).trans hremove
    simpa [testLines] using hall

end Tests

section Allocations

variable {n i k : ℕ} {s : Demo}

theorem allocated_succ (n : ℕ) : allocated (n + 1) = insert (.node n) (allocated n) := by
  ext o
  simp only [allocated, Set.mem_ofPred_eq, Set.mem_insert_iff, Nat.lt_succ_iff_lt_or_eq]
  constructor
  · rintro (h | h | ⟨i, hi | rfl, rfl⟩)
    · exact Or.inr (Or.inl h)
    · exact Or.inr (Or.inr (Or.inl h))
    · exact Or.inr (Or.inr (Or.inr ⟨i, hi, rfl⟩))
    · exact Or.inl rfl
  · rintro (rfl | h | h | ⟨i, hi, rfl⟩)
    · exact Or.inr (Or.inr ⟨n, Or.inr rfl, rfl⟩)
    · exact Or.inl h
    · exact Or.inr (Or.inl h)
    · exact Or.inr (Or.inr ⟨i, Or.inl hi, rfl⟩)

theorem node_notMem_allocated (n : ℕ) : .node n ∉ allocated n := by simp [allocated]

/-- The nodes before `n` are allocated and numbered, and nothing is listed or printed. -/
structure Prepared (n : ℕ) (s : Demo) : Prop where
  owns : Owns (allocated n) (memory s.seen)
  holds : s.links.Holds .headNode []
  numbered : Numbered n s
  printed : printed s.seen = []

theorem prepared_zero : Prepared 0 (entered.allocHead.log [.memory (.acquire .nodes)]) where
  owns := by
    have hhead := owns_nil.acquire (Set.notMem_empty Object.headNode)
    have hused : Owns (insert Object.headNode ∅) _ :=
      hhead.uses (l := [.headNode, .headNode, .headNode]) (by simp)
    have hnodes := hused.acquire (r := .nodes) (by simp)
    have hset : insert Object.nodes (insert .headNode ∅) = allocated 0 := by
      ext o
      simp [allocated, or_comm]
    rwa [hset] at hnodes
  holds := Links.holds_init _ _
  numbered := by simp [Numbered]
  printed := rfl

theorem Prepared.allocNode (h : Prepared i s) : Prepared (i + 1) (s.allocNode i) where
  owns := by
    have hnew := h.owns.acquire (node_notMem_allocated i)
    rw [← allocated_succ] at hnew
    have hused := hnew.uses (l := [.nodes, .nodes, .node i])
      (by simp [nodes_mem, node_mem (Nat.lt_succ_self i)])
    simpa [Demo.allocNode, Demo.use, Demo.log, Demo.setNumber, memory] using hused
  holds := h.holds
  numbered j hj := by
    rw [Demo.allocNode, Demo.setNumber]
    rcases Nat.lt_succ_iff_lt_or_eq.mp hj with hlt | rfl
    · have hne : Object.node j ≠ .node i := by simpa using hlt.ne
      exact (Function.update_of_ne hne _ _).trans (h.numbered j hlt)
    · exact Function.update_self ..
  printed := by
    have hnone := h.printed
    simp only [Demo.allocNode, Demo.use, Demo.log, Demo.setNumber, printed_append, hnone]
    rfl

theorem allocNodes_cases (succeeds : Object → Bool) (k : ℕ) (h : Prepared i s) :
    (∃ t, s.allocNodes succeeds i k = (none, t) ∧ Prepared (i + k) t ∧
        ∀ j, i ≤ j → j < i + k → succeeds (.node j) = true) ∨
      ∃ j t, (∀ j', i ≤ j' → j' < j → succeeds (.node j') = true) ∧ i ≤ j ∧ j < i + k ∧
        succeeds (.node j) = false ∧ s.allocNodes succeeds i k = (some j, t) ∧
        Owns (allocated j) (memory t.seen) := by
  induction k generalizing i s with
  | zero => exact Or.inl ⟨s, rfl, h, fun j hle hlt => by omega⟩
  | succ k ih =>
    cases hi : succeeds (.node i) with
    | false =>
      refine Or.inr ⟨i, s.use [.nodes], fun j hle hlt => by omega, le_rfl, by omega, hi, ?_, ?_⟩
      · simp [Demo.allocNodes, hi]
      · have hused := h.owns.uses (l := [.nodes]) (by simp [nodes_mem])
        simpa [Demo.use, Demo.log, memory] using hused
    | true =>
      have hstep : s.allocNodes succeeds i (k + 1) =
          (s.allocNode i).allocNodes succeeds (i + 1) k := if_pos hi
      have hsum : i + (k + 1) = i + 1 + k := by omega
      rw [hstep, hsum]
      have hfrom : ∀ {m}, (∀ j, i + 1 ≤ j → j < m → succeeds (.node j) = true) →
          ∀ j, i ≤ j → j < m → succeeds (.node j) = true := by
        intro m hall j hle hlt
        rcases Nat.eq_or_lt_of_le hle with rfl | hlt'
        · exact hi
        · exact hall j hlt' hlt
      refine (ih h.allocNode).imp ?_ ?_
      · rintro ⟨t, ht, hprepared, hall⟩
        exact ⟨t, ht, hprepared, hfrom hall⟩
      · rintro ⟨j, t, hall, hle, hrest⟩
        exact ⟨j, t, hfrom hall, by omega, hrest⟩

end Allocations

section Frees

variable {n i fuel : ℕ} {s : Demo} {succeeds : Object → Bool}

/-- What is left when the allocation of node `i` fails. -/
def kept (i : ℕ) : Set Object := {o | o = .headNode ∨ 0 < i ∧ o = .node 0}

/-- The loop stops before it comes to node 0. -/
theorem freeBefore_spec (h : Owns (allocated i) (memory s.seen)) :
    Owns (insert .nodes (kept i)) (memory (s.freeBefore i).seen) := by
  induction i generalizing s with
  | zero =>
    have hset : insert Object.nodes (kept 0) = allocated 0 := by
      ext o
      simp [kept, allocated, or_comm]
    rwa [hset]
  | succ i ih =>
    cases i with
    | zero =>
      have hset : insert Object.nodes (kept 1) = allocated 1 := by
        ext o
        simp [kept, allocated, or_left_comm]
      rwa [hset]
    | succ i =>
      have hused := h.uses (l := [.nodes]) (by simp [nodes_mem])
      rw [allocated_succ] at hused
      have hfreed := hused.release_insert (node_notMem_allocated _)
      have hset : kept (i + 2) = kept (i + 1) := by simp [kept]
      rw [hset]
      refine ih ?_
      simpa [Demo.use, Demo.log, memory] using hfreed

/-- What is left of the allocated objects after `i` turns of the last loop. -/
def remaining (i n : ℕ) : Set Object :=
  {o | o = .headNode ∨ o = .nodes ∨ ∃ j, i ≤ j ∧ j < n ∧ o = .node j}

theorem remaining_zero (n : ℕ) : remaining 0 n = allocated n := by
  ext o
  simp [remaining, allocated]

theorem remaining_succ (i n : ℕ) : remaining i n \ {.node i} = remaining (i + 1) n := by
  ext o
  simp only [remaining, Set.mem_sdiff, Set.mem_ofPred_eq, Set.mem_singleton_iff]
  constructor
  · rintro ⟨rfl | rfl | ⟨j, hle, hlt, rfl⟩, hne⟩
    · exact Or.inl rfl
    · exact Or.inr (Or.inl rfl)
    · have hij : j ≠ i := fun he => hne (by rw [he])
      exact Or.inr (Or.inr ⟨j, by omega, hlt, rfl⟩)
  · rintro (rfl | rfl | ⟨j, hle, hlt, rfl⟩)
    · exact ⟨Or.inl rfl, by simp⟩
    · exact ⟨Or.inr (Or.inl rfl), by simp⟩
    · refine ⟨Or.inr (Or.inr ⟨j, by omega, hlt, rfl⟩), ?_⟩
      simp only [Object.node.injEq]
      omega

theorem remaining_self (n : ℕ) : (remaining n n \ {.nodes}) \ {.headNode} = ∅ := by
  ext o
  simp only [remaining, Set.mem_sdiff, Set.mem_ofPred_eq, Set.mem_singleton_iff,
    Set.mem_empty_iff_false, iff_false]
  rintro ⟨⟨rfl | rfl | ⟨j, hle, hlt, rfl⟩, hnodes⟩, hhead⟩
  · exact hhead rfl
  · exact hnodes rfl
  · omega

theorem freeNode_spec (h : Owns (remaining i n) (memory s.seen)) (hi : i < n) :
    Owns (remaining (i + 1) n) (memory (s.freeNode i).seen) := by
  have hmem : Object.node i ∈ remaining i n := Or.inr (Or.inr ⟨i, le_rfl, hi, rfl⟩)
  have hnodes : Object.nodes ∈ remaining i n := Or.inr (Or.inl rfl)
  have hused := h.uses (l := [.nodes, .node i, .nodes]) (by simp [hmem, hnodes])
  have hfreed := hused.release hmem
  rw [remaining_succ] at hfreed
  simpa [Demo.freeNode, Demo.use, Demo.print, Demo.log, memory] using hfreed

theorem printed_freeNode (hnum : s.number (.node i) = i) :
    printed (s.freeNode i).seen = printed s.seen ++ [Line.freeNode i] := by
  simp [Demo.freeNode, Demo.use, Demo.print, Demo.log, printed, hnum]

theorem freeNodes_spec (h : Owns (allocated n) (memory s.seen)) (hnum : Numbered n s) :
    ∀ k ≤ n, Owns (remaining k n)
        (memory ((List.range k).foldl (fun s i => s.freeNode i) s).seen) ∧
      printed ((List.range k).foldl (fun s i => s.freeNode i) s).seen =
        printed s.seen ++ (List.range k).map (fun i : ℕ => Line.freeNode i) ∧
      Numbered n ((List.range k).foldl (fun s i => s.freeNode i) s) := by
  intro k
  induction k with
  | zero =>
    rw [remaining_zero]
    exact fun _ => ⟨h, by simp, hnum⟩
  | succ k ih =>
    intro hk
    obtain ⟨howns, hprinted, hnum'⟩ := ih (by omega)
    rw [List.range_succ, List.foldl_append]
    refine ⟨freeNode_spec howns (by omega), ?_, hnum'⟩
    rw [List.foldl_cons, List.foldl_nil, printed_freeNode (hnum' k (by omega)), hprinted,
      List.map_append, List.append_assoc]
    rfl

theorem freeAll_spec (h : Owns (allocated n) (memory s.seen)) (hnum : Numbered n s) :
    Owns ∅ (memory (s.freeAll n).seen) ∧
      printed (s.freeAll n).seen = printed s.seen ++ freeLines n := by
  have hstart : Owns (allocated n) (memory (s.print (.text "free nodes[] : ")).seen) := by
    simpa [Demo.print, Demo.log, memory] using h
  obtain ⟨howns, hprinted, -⟩ := freeNodes_spec hstart hnum n le_rfl
  constructor
  · have hnodes := howns.release (r := .nodes) (Or.inr (Or.inl rfl))
    have hhead := hnodes.release (r := .headNode) ⟨Or.inl rfl, by simp⟩
    rw [remaining_self] at hhead
    simpa [Demo.freeAll, Demo.print, Demo.log, memory] using hhead
  · simp only [Demo.freeAll, Demo.print, Demo.log, printed_append] at hprinted ⊢
    rw [hprinted]
    simp [printed, freeLines]

end Frees

structure AllSucceed (n : ℕ) (succeeds : Object → Bool) : Prop where
  headNode : succeeds .headNode = true
  nodes : succeeds .nodes = true
  node : ∀ i < n, succeeds (.node i) = true

section Demonstration

variable {n fuel : ℕ} {s s' : Demo} {succeeds : Object → Bool}

theorem owns_of_shows {H : Set Object} {lines : List Line} (h : Shows H lines s s')
    (howns : Owns H (memory s.seen)) : Owns H (memory s'.seen) := by
  obtain ⟨uses, huses, hmemory⟩ := h.memory
  rw [hmemory]
  exact howns.uses huses

theorem tests_spec (h : Prepared n s) (hn : 5 < n) (hfuel : n ≤ fuel) :
    ∃ s₁ s₂, s.insertionTest fuel n "***** HEAD INSERTION TEST ***** " Demo.listAdd = some s₁ ∧
      s₁.insertionTest fuel n "***** TAIL INSERTION TEST ***** " Demo.listAddTail = some s₂ ∧
      Owns ∅ (memory (s₂.freeAll n).seen) ∧ printed (s₂.freeAll n).seen = lines n := by
  have hring : Ring n [] s := ⟨h.holds, by simp⟩
  obtain ⟨s₁, hs₁, hshows₁, hring₁⟩ :=
    insertionTest_spec (inserts_listAdd n) hring h.numbered hn hfuel
  obtain ⟨s₂, hs₂, hshows₂, -⟩ := insertionTest_spec (inserts_listAddTail n) hring₁
    (hshows₁.numbered h.numbered) hn hfuel
  have hshows := hshows₁.trans hshows₂
  obtain ⟨hfreed, hlines⟩ := freeAll_spec (owns_of_shows hshows h.owns) (hshows.numbered h.numbered)
  refine ⟨s₁, s₂, hs₁, hs₂, hfreed, ?_⟩
  rw [hlines, hshows.printed, h.printed, List.nil_append]
  rfl

theorem demo_of_failure (fuel : ℕ) {j : ℕ} {t : Demo} (hhead : succeeds .headNode = true)
    (hnodes : succeeds .nodes = true)
    (ht : (entered.allocHead.log [.memory (.acquire .nodes)]).allocNodes succeeds 0 n = (some j, t))
    (howns : Owns (allocated j) (memory t.seen)) :
    ∃ s, linkedListDemo fuel n succeeds = some s ∧ Owns (kept j) (memory s.seen) := by
  refine ⟨((t.print (.allocFailure j)).freeBefore j).log [.memory (.release .nodes)], ?_, ?_⟩
  · simp [linkedListDemo, hhead, hnodes, ht]
  · have hprinted : Owns (allocated j) (memory (t.print (.allocFailure j)).seen) := by
      simpa [Demo.print, Demo.log, memory] using howns
    have hfreed := (freeBefore_spec hprinted).release_insert (by simp [kept])
    simpa [Demo.log, memory] using hfreed

/-- The store through the unchecked array. -/
theorem demo_of_no_array (n fuel : ℕ) (hhead : succeeds .headNode = true)
    (hnodes : succeeds .nodes = false) :
    ∃ s, linkedListDemo fuel n succeeds = some s ∧ ¬Lawful (memory s.seen) := by
  cases hnode : succeeds (.node 0) with
  | true => exact ⟨_, by simp [linkedListDemo, hhead, hnodes, hnode]; rfl, by decide⟩
  | false => exact ⟨_, by simp [linkedListDemo, hhead, hnodes, hnode]; rfl, by decide⟩

theorem demo_of_prepared {t : Demo} (hhead : succeeds .headNode = true)
    (hnodes : succeeds .nodes = true)
    (ht : (entered.allocHead.log [.memory (.acquire .nodes)]).allocNodes succeeds 0 n = (none, t))
    (hprepared : Prepared n t) (hn : 5 < n) (hfuel : n ≤ fuel) :
    ∃ s, linkedListDemo fuel n succeeds = some s ∧ printed s.seen = lines n ∧
      Settled (memory s.seen) := by
  obtain ⟨s₁, s₂, hs₁, hs₂, hfreed, hlines⟩ := tests_spec hprepared hn hfuel
  refine ⟨s₂.freeAll n, ?_, hlines, hfreed.settled_iff.mpr rfl⟩
  simp [linkedListDemo, hhead, hnodes, ht, hs₁, hs₂]

/-- If all allocations succeed, the first test lists the nodes backwards and the second in
order, each once with and once without the fifth, and everything is freed. -/
theorem linked_list_demo_lists (hall : AllSucceed n succeeds) (hn : 5 < n) (hfuel : n ≤ fuel) :
    ∃ s, linkedListDemo fuel n succeeds = some s ∧ printed s.seen = lines n ∧
      Settled (memory s.seen) := by
  rcases allocNodes_cases succeeds n prepared_zero with
    ⟨t, ht, hprepared, -⟩ | ⟨j, t, -, -, hlt, hfail, -⟩
  · rw [Nat.zero_add] at hprepared
    exact demo_of_prepared hall.headNode hall.nodes ht hprepared hn hfuel
  · rw [hall.node j (by omega)] at hfail
    cases hfail

theorem linked_list_demo_ten : ∃ s, linkedListDemo 10 10 (fun _ => true) = some s ∧
    printed s.seen = lines 10 ∧ Settled (memory s.seen) :=
  linked_list_demo_lists ⟨rfl, rfl, fun _ _ => rfl⟩ (by decide) (by decide)

/-- Everything is freed if and only if the first allocation fails or none does. A failure at
node `j` leaves the head, and node 0 if there is one. -/
theorem linked_list_demo_ledger (succeeds : Object → Bool) (hn : 5 < n) (hfuel : n ≤ fuel) :
    ∃ s, linkedListDemo fuel n succeeds = some s ∧
      (Settled (memory s.seen) ↔ succeeds .headNode = false ∨ AllSucceed n succeeds) ∧
      ∀ j < n, succeeds .headNode = true → succeeds .nodes = true →
        (∀ i < j, succeeds (.node i) = true) → succeeds (.node j) = false →
          Owns (kept j) (memory s.seen) := by
  cases hhead : succeeds .headNode with
  | false =>
    refine ⟨entered.print (.text "head node kzalloc() failure"), ?_, ?_, nofun⟩
    · simp [linkedListDemo, hhead]
    · exact iff_of_true ⟨trivial, fun _ => rfl⟩ (Or.inl rfl)
  | true =>
    cases hnodes : succeeds .nodes with
    | false =>
      obtain ⟨s, hs, hbad⟩ := demo_of_no_array n fuel hhead hnodes
      refine ⟨s, hs, iff_of_false (fun h => hbad h.1) ?_, nofun⟩
      rintro (h | h)
      · cases h
      · rw [h.nodes] at hnodes
        cases hnodes
    | true =>
      rcases allocNodes_cases succeeds n prepared_zero with
        ⟨t, ht, hprepared, hall⟩ | ⟨j, t, hbefore, -, hlt, hfail, ht, howns⟩
      · have hsucceed : AllSucceed n succeeds :=
          ⟨hhead, hnodes, fun i hi => hall i (by omega) (by omega)⟩
        rw [Nat.zero_add] at hprepared
        obtain ⟨s, hs, -, hsettled⟩ := demo_of_prepared hhead hnodes ht hprepared hn hfuel
        refine ⟨s, hs, iff_of_true hsettled (Or.inr hsucceed), fun j hj _ _ _ hfail => ?_⟩
        rw [hsucceed.node j hj] at hfail
        cases hfail
      · obtain ⟨s, hs, hkept⟩ := demo_of_failure fuel hhead hnodes ht howns
        refine ⟨s, hs, ?_, fun j' hj' _ _ hbefore' hfail' => ?_⟩
        · rw [hkept.settled_iff]
          refine iff_of_false (fun he => ?_) ?_
          · have hmem : Object.headNode ∈ kept j := Or.inl rfl
            rw [he] at hmem
            exact hmem
          · rintro (h | h)
            · cases h
            · rw [h.node j (by omega)] at hfail
              cases hfail
        · rcases Nat.lt_trichotomy j j' with hlt' | rfl | hlt'
          · rw [hbefore' j hlt'] at hfail
            cases hfail
          · exact hkept
          · rw [hbefore j' (Nat.zero_le _) hlt'] at hfail'
            cases hfail'

/-- The fourth node leaves the head and the first node. -/
theorem linked_list_demo_fourth_fails : ∃ s,
    linkedListDemo 10 10 (fun o => o != .node 3) = some s ∧ ¬Settled (memory s.seen) ∧
      Owns (kept 3) (memory s.seen) := by
  obtain ⟨s, hs, hsettled, hkept⟩ := linked_list_demo_ledger (fun o => o != .node 3)
    (show 5 < 10 by decide) (show 10 ≤ 10 by decide)
  refine ⟨s, hs, fun h => ?_, hkept 3 (by decide) rfl rfl (fun i hi => ?_) rfl⟩
  · rcases hsettled.mp h with hhead | hall
    · exact absurd hhead (by decide)
    · exact absurd (hall.node 3 (by decide)) (by decide)
  · have hne : i ≠ 3 := by omega
    simp [hne]

end Demonstration

end LinuxOddsAndEnds.Ubuntu.LinkedList
