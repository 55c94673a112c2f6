import LinuxOddsAndEnds.Ubuntu.MemoryDesk

/-!
# The clients refine the desk

Only the client who holds the mutex is past `open`, and its mapping leads to the bytes of the
buffer, because the size it asks for is the size that the module prints. So every access is
one to the array on the desk, and the bytes that a dump loads one after the other are still
there when the line ends.
-/

namespace LinuxOddsAndEnds.Ubuntu.MemoryClient

open Foundation Memory

variable {C : Type*} {pageShift : ℕ} {b : PageBuffer pageShift}

section Mapping

variable {vma : VmAreaStruct} {size : ℤ} {offset : ℕ}

theorem remap_of_ret {b : KmallocBuffer pageShift} {remapPfnRange : Remap → ℤ}
    (h : (memoryMmap b remapPfnRange vma).ret = 0) :
    (memoryMmap b remapPfnRange vma).remap = some (vma.remap b) := by
  rw [memoryMmap_eq] at h ⊢
  by_cases hpass : (vma.offset pageShift).toNat + (vma.vmEnd.toNat - vma.vmStart.toNat) ≤
      (kmallocMmpBufferSize pageShift).toNat ∧ vma.privateWrite = false
  · rw [if_pos hpass]
  · rw [if_neg hpass, einval] at h
    cases h

theorem size_of_mmapRequest (h : mmapRequest pageShift (bufferSize pageShift) vma = true) :
    vma.vmEnd.toNat - vma.vmStart.toNat = bufferSize pageShift := by
  obtain ⟨k, hk⟩ := pow_dvd_bufferSize pageShift
  have hpos := Nat.two_pow_pos pageShift
  have hpages : (2 ^ pageShift * k + 2 ^ pageShift - 1) / 2 ^ pageShift = k := by
    rw [Nat.add_sub_assoc hpos, Nat.mul_add_div hpos, Nat.div_eq_of_lt (by omega), Nat.add_zero]
  obtain ⟨-, -, -, hlength⟩ := of_decide_eq_true h
  rw [hlength, Int.toNat_natCast, hk, hpages, Nat.mul_comm]

theorem translate_remap (b : PageBuffer pageShift)
    (h : mmapRequest pageShift (bufferSize pageShift) vma = true)
    (hoffset : offset < bufferSize pageShift) :
    translate pageShift (vma.remap b.toKmallocBuffer) offset = some (b.base + offset) := by
  have hpos := Nat.two_pow_pos pageShift
  have hpgoff : (vma.offset pageShift).toNat = 0 := by
    rw [toNat_offset, (of_decide_eq_true h).1]
    simp
  have hframes : (vma.remap b.toKmallocBuffer).frames pageShift =
      b.frames (vma.offset pageShift).toNat
        (pagesOf pageShift (vma.vmEnd.toNat - vma.vmStart.toNat)) :=
    remap_frames (by rw [hpgoff]; exact Nat.zero_le _)
  have hpage : offset / 2 ^ pageShift <
      pagesOf pageShift (vma.vmEnd.toNat - vma.vmStart.toNat) := by
    obtain ⟨k, hk⟩ := pow_dvd_bufferSize pageShift
    rw [pagesOf, size_of_mmapRequest h]
    calc offset / 2 ^ pageShift < k := Nat.div_lt_of_lt_mul (hk ▸ hoffset)
      _ = bufferSize pageShift / 2 ^ pageShift := by rw [hk, Nat.mul_div_cancel_left k hpos]
      _ ≤ (bufferSize pageShift + 2 ^ pageShift - 1) / 2 ^ pageShift :=
        Nat.div_le_div_right (by omega)
  obtain ⟨q, hq⟩ := b.aligned
  have hframe : (b.base + 0 + offset / 2 ^ pageShift * 2 ^ pageShift) / 2 ^ pageShift =
      q + offset / 2 ^ pageShift := by
    rw [PageBuffer.base, hq, Nat.add_zero, Nat.mul_comm _ (2 ^ pageShift), ← Nat.mul_add,
      Nat.mul_div_cancel_left _ hpos]
  rw [translate, hframes, hpgoff, KmallocBuffer.frames, List.getElem?_map,
    List.getElem?_range hpage, Option.map_some, Option.map_some]
  have hsplit := Nat.div_add_mod offset (2 ^ pageShift)
  have hbase : b.base = 2 ^ pageShift * q := hq
  rw [PageBuffer.base] at hframe hbase
  rw [hframe, PageBuffer.base, hbase, Nat.add_mul, Nat.mul_comm q, Nat.mul_comm (offset / _)]
  congr 1
  omega

end Mapping

section Memory

variable {memory memory' : ℕ → Byte} {cells : Fin (bufferSize pageShift) → Byte}

/-- The array lies in the buffer, and the rest of the memory is as it was. -/
structure Backed (b : PageBuffer pageShift) (memory₀ memory : ℕ → Byte)
    (cells : Fin (bufferSize pageShift) → Byte) : Prop where
  cells : ∀ i : Fin (bufferSize pageShift), memory (b.base + i) = cells i
  outside : ∀ a, (∀ i : Fin (bufferSize pageShift), a ≠ b.base + i) → memory a = memory₀ a

theorem backed_cells (b : PageBuffer pageShift) (memory : ℕ → Byte) :
    Backed b memory memory (b.cells memory) := ⟨fun _ => rfl, fun _ _ => rfl⟩

theorem Backed.store (h : Backed b memory memory' cells) (i : Fin (bufferSize pageShift))
    (v : Byte) : Backed b memory (Function.update memory' (b.base + i) v)
      (Function.update cells i v) where
  cells j := by
    by_cases hj : j = i
    · subst hj
      rw [Function.update_self, Function.update_self]
    · have haddr : b.base + j.val ≠ b.base + i.val := fun heq => hj (Fin.ext (by omega))
      rw [Function.update_of_ne haddr, Function.update_of_ne hj, h.cells j]
  outside a ha := by
    rw [Function.update_of_ne (ha i), h.outside a ha]

end Memory

/-- The client has the size, and the editor is what it has in its statics. -/
structure Client.Edits (b : PageBuffer pageShift) (p : Client)
    (e : Editor (bufferSize pageShift)) : Prop where
  size : p.mmapBufferSize = bufferSize pageShift
  val : p.fillVal = e.val
  offset : p.fillOffset = e.offset
  mapped : e.mapped = true → ∃ r, p.kernelBuff = some r ∧
    ∀ i : Fin (bufferSize pageShift), translate pageShift r i = some (b.base + i)
  unmapped : e.mapped = false → p.kernelBuff = none

/-- What a client past `open` has made of its session. -/
def Client.AtDesk (b : PageBuffer pageShift) (cells : Fin (bufferSize pageShift) → Byte)
    (p : Client) (e : Option (Editor (bufferSize pageShift))) : Prop :=
  match p.pc with
  | .readProc => e = none ∧ p.fillVal = 0 ∧ p.fillOffset = 0
  | .mmap => e = none ∧ p.fillVal = 0 ∧ p.fillOffset = 0 ∧ 0 < bufferSize pageShift ∧
      p.mmapBufferSize = bufferSize pageShift
  | .key | .escape | .bracket => ∃ e', e = some e' ∧ p.Edits b e'
  | .dump i => ∃ e', e = some e' ∧ p.Edits b e' ∧ i ≤ 16 ∧ (e'.mapped = false → i = 0) ∧
      p.line = ((List.ofFn cells).take i).flatMap showChar
  | _ => True

/-- The client past `open` is the one at the desk, and the others have yet to come or are
gone. -/
structure Seated (b : PageBuffer pageShift) (client : C → Client)
    (cells : Fin (bufferSize pageShift) → Byte)
    (session : Option (C × Option (Editor (bufferSize pageShift)))) : Prop where
  fresh : ∀ c, (client c).pc = .openDevice → client c = .started
  holds_iff : ∀ c, (client c).pc.holds = true ↔ ∃ e, session = some (c, e)
  atDesk : ∀ c e, session = some (c, e) → (client c).AtDesk b cells e

structure Refines (b : PageBuffer pageShift) (memory : ℕ → Byte) (s : State C)
    (d : Desk C (bufferSize pageShift)) : Prop where
  locked : s.locked = d.session.isSome
  backed : Backed b memory s.memory d.cells
  seated : Seated b s.client d.cells d.session

variable [DecidableEq C]

section Seats

variable {client : C → Client} {cells cells' : Fin (bufferSize pageShift) → Byte}
  {session session' : Option (C × Option (Editor (bufferSize pageShift)))} {c : C} {p : Client}
  {e e' : Option (Editor (bufferSize pageShift))}

theorem Seated.update (h : Seated b client cells session)
    (hothers : ∀ c', c' ≠ c → ∀ e, session' = some (c', e) ↔ session = some (c', e))
    (hcells : cells' = cells ∨ ∃ e, session' = some (c, e))
    (hfresh : p.pc = .openDevice → p = .started)
    (hholds : p.pc.holds = true ↔ ∃ e, session' = some (c, e))
    (hat : ∀ e, session' = some (c, e) → p.AtDesk b cells' e) :
    Seated b (Function.update client c p) cells' session' := by
  refine ⟨fun c' hc' => ?_, fun c' => ?_, fun c' e heq => ?_⟩
  · by_cases hsame : c' = c
    · subst hsame
      rw [Function.update_self] at hc' ⊢
      exact hfresh hc'
    · rw [Function.update_of_ne hsame] at hc' ⊢
      exact h.fresh c' hc'
  · by_cases hsame : c' = c
    · subst hsame
      rw [Function.update_self, hholds]
    · rw [Function.update_of_ne hsame, h.holds_iff]
      exact exists_congr fun e => (hothers c' hsame e).symm
  · by_cases hsame : c' = c
    · subst hsame
      rw [Function.update_self]
      exact hat e heq
    · rw [Function.update_of_ne hsame]
      rcases hcells with rfl | ⟨e', he'⟩
      · exact h.atDesk c' e ((hothers c' hsame e).mp heq)
      · rw [he'] at heq
        exact absurd (Prod.mk.inj (Option.some.inj heq)).1.symm hsame

theorem not_openDevice_of_holds (hp : p.pc.holds = true) (hopen : p.pc = .openDevice) :
    p = .started := by
  rw [hopen] at hp
  cases hp

theorem Seated.move (h : Seated b client cells (some (c, e))) (hp : p.pc.holds = true)
    (hat : p.AtDesk b cells' e') :
    Seated b (Function.update client c p) cells' (some (c, e')) := by
  refine h.update (fun c' hne e'' => ?_) (Or.inr ⟨e', rfl⟩) (not_openDevice_of_holds hp)
    (iff_of_true hp ⟨e', rfl⟩) fun e'' heq => ?_
  · simp [Ne.symm hne]
  · rw [← (Prod.mk.inj (Option.some.inj heq)).2]
    exact hat

theorem Seated.enter (h : Seated b client cells none) (hp : p.pc.holds = true)
    (hat : p.AtDesk b cells none) :
    Seated b (Function.update client c p) cells (some (c, none)) := by
  refine h.update (fun c' hne e'' => ?_) (Or.inl rfl) (not_openDevice_of_holds hp)
    (iff_of_true hp ⟨none, rfl⟩) fun e'' heq => ?_
  · simp [Ne.symm hne]
  · rw [← (Prod.mk.inj (Option.some.inj heq)).2]
    exact hat

theorem Seated.leave (h : Seated b client cells (some (c, e))) (hp : p.pc = .exited) :
    Seated b (Function.update client c p) cells none := by
  refine h.update (fun c' hne e'' => ?_) (Or.inl rfl) (fun hopen => ?_) ?_ (by simp)
  · simp [Ne.symm hne]
  · rw [hp] at hopen
    cases hopen
  · rw [hp]
    simp [Pc.holds]

theorem Seated.away (h : Seated b client cells session) (hc : (client c).pc.holds = false)
    (hp : p.pc.holds = false) (hfresh : p.pc = .openDevice → p = .started) :
    Seated b (Function.update client c p) cells session := by
  have hnot : ∀ e, session ≠ some (c, e) := by
    intro e hsession
    rw [(h.holds_iff c).mpr ⟨e, hsession⟩] at hc
    cases hc
  refine h.update (fun c' _ e => Iff.rfl) (Or.inl rfl) hfresh ?_ fun e heq => absurd heq (hnot e)
  rw [hp]
  simp [hnot]

end Seats

section Steps

variable {memory : ℕ → Byte} {s s' : State C} {d d' : Desk C (bufferSize pageShift)} {c : C}
  {p : Client} {e e' : Option (Editor (bufferSize pageShift))}
  {editor editor' : Editor (bufferSize pageShift)} {cells : Fin (bufferSize pageShift) → Byte}
  {seen : List (Seen C)} {k : Command} {as : List (DeskAction C)} {out : State C × List (Seen C)}

/-- The actions show the same at the desk, and leave it where the clients are then. -/
def Follows (b : PageBuffer pageShift) (memory : ℕ → Byte) (d : Desk C (bufferSize pageShift))
    (as : List (DeskAction C)) (out : State C × List (Seen C)) : Prop :=
  ∃ d', exec desk d as = some (d', out.2) ∧ Refines b memory out.1 d'

omit [DecidableEq C] in
theorem Refines.session (h : Refines b memory s d) (hc : (s.client c).pc.holds = true) :
    ∃ e, d.session = some (c, e) ∧ (s.client c).AtDesk b d.cells e := by
  obtain ⟨e, he⟩ := (h.seated.holds_iff c).mp hc
  exact ⟨e, he, h.seated.atDesk c e he⟩

theorem Refines.move (h : Refines b memory s d) (hsession : d.session = some (c, e))
    (hp : p.pc.holds = true) (hat : p.AtDesk b d.cells e) :
    Refines b memory (s.setClient c p) d := by
  have hseated := h.seated
  rw [hsession] at hseated
  refine ⟨h.locked, h.backed, ?_⟩
  rw [hsession]
  exact hseated.move hp hat

theorem Refines.follows_move (h : Refines b memory s d) (hsession : d.session = some (c, e))
    (hp : p.pc.holds = true) (hat : p.AtDesk b d.cells e) :
    Follows b memory d [] (s.setClient c p, []) :=
  ⟨d, rfl, h.move hsession hp hat⟩

theorem Refines.setEditor (h : Refines b memory s d) (hsession : d.session = some (c, e))
    (hp : p.pc.holds = true) (hat : p.AtDesk b d.cells e') :
    Refines b memory (s.setClient c p) { d with session := some (c, e') } := by
  have hseated := h.seated
  rw [hsession] at hseated
  have hlocked : s.locked = true := by
    rw [h.locked, hsession]
    rfl
  exact ⟨hlocked, h.backed, hseated.move hp hat⟩

theorem follows_command (h : Refines b memory s d) (hsession : d.session = some (c, some editor))
    (hrun : editor.run c d.cells k = (cells, editor', seen)) {memory' : ℕ → Byte}
    (hbacked : Backed b memory memory' cells) (hp : p.pc.holds = true)
    (hat : p.AtDesk b cells (some editor')) :
    Follows b memory d [.command c k]
      (State.setClient { s with memory := memory' } c p, seen) := by
  have hseat : d.seat c = some (some editor) := Desk.seat_eq_some.mpr hsession
  have hstep : desk d (.command c k) = some (⟨cells, some (c, some editor')⟩, seen) := by
    simp [desk, hseat, hrun]
  have hlocked : s.locked = true := by
    rw [h.locked, hsession]
    rfl
  have hseated := h.seated
  rw [hsession] at hseated
  exact ⟨_, exec_single hstep, hlocked, hbacked, hseated.move hp hat⟩

theorem Client.Edits.goTo (h : p.Edits b editor) (pc : Pc) : (p.goTo pc).Edits b editor :=
  ⟨h.size, h.val, h.offset, h.mapped, h.unmapped⟩

theorem Client.Edits.isSome_kernelBuff (h : p.Edits b editor) :
    p.kernelBuff.isSome = editor.mapped := by
  cases hmapped : editor.mapped with
  | true =>
    obtain ⟨r, hr, -⟩ := h.mapped hmapped
    rw [hr]
    rfl
  | false =>
    rw [h.unmapped hmapped]
    rfl

theorem Client.Edits.atDesk_key (h : p.Edits b editor) (hp : p.pc = .key) :
    p.AtDesk b cells (some editor) := by
  rw [Client.AtDesk, hp]
  exact ⟨editor, rfl, h⟩

omit [DecidableEq C] in
theorem Client.Edits.of_key {p : Client} {e : Option (Editor (bufferSize pageShift))}
    (h : p.AtDesk b cells e) (hp : p.pc = .key ∨ p.pc = .escape ∨ p.pc = .bracket) :
    ∃ editor, e = some editor ∧ p.Edits b editor := by
  rw [Client.AtDesk] at h
  rcases hp with hp | hp | hp <;> rwa [hp] at h

theorem access_mapped (hedits : (s.client c).Edits b editor) (hmapped : editor.mapped = true)
    (i : Fin (bufferSize pageShift)) (next : ℕ → State C × List (Seen C)) :
    access pageShift s c i next = next (b.base + i) := by
  obtain ⟨r, hr, htranslate⟩ := hedits.mapped hmapped
  rw [access, hr, Option.bind_some, htranslate i]

theorem access_unmapped (hedits : (s.client c).Edits b editor) (hmapped : editor.mapped = false)
    (i : ℕ) (next : ℕ → State C × List (Seen C)) : access pageShift s c i next =
      (s.setClient c ((s.client c).goTo .close), [.faulted c]) := by
  rw [access, hedits.unmapped hmapped]
  rfl

theorem follows_idle (h : Refines b memory s d) (hsession : d.session = some (c, some editor))
    (hedits : (s.client c).Edits b editor) (hrun : editor.run c d.cells k = (d.cells, editor, [])) :
    Follows b memory d [.command c k] (s.setClient c ((s.client c).goTo .key), []) :=
  follows_command h hsession hrun h.backed rfl ((hedits.goTo .key).atDesk_key rfl)

theorem follows_fault (h : Refines b memory s d) (hsession : d.session = some (c, some editor))
    (hrun : editor.run c d.cells k = (d.cells, editor, [.faulted c])) :
    Follows b memory d [.command c k]
      (s.setClient c ((s.client c).goTo .close), [.faulted c]) :=
  follows_command h hsession hrun h.backed rfl trivial

theorem follows_fill (h : Refines b memory s d) (hsession : d.session = some (c, some editor))
    (hedits : (s.client c).Edits b editor) (offset : Fin (bufferSize pageShift))
    (hrun : editor.run c d.cells k = editor.fill c d.cells offset) :
    Follows b memory d [.command c k] (fill pageShift s c offset) := by
  rw [fill, hedits.offset, hedits.val]
  cases hmapped : editor.mapped with
  | true =>
    rw [access_mapped hedits hmapped]
    rw [Editor.fill, if_pos hmapped] at hrun
    exact follows_command h hsession hrun (h.backed.store editor.offset editor.val) rfl
      (Client.Edits.atDesk_key
        ⟨hedits.size, hedits.val, rfl, hedits.mapped, hedits.unmapped⟩ rfl)
  | false =>
    rw [access_unmapped hedits hmapped]
    rw [Editor.fill, if_neg (by simp [hmapped])] at hrun
    exact follows_fault h hsession hrun

theorem follows_setVal (h : Refines b memory s d) (hsession : d.session = some (c, some editor))
    (hedits : (s.client c).Edits b editor) (v : Byte)
    (hrun : editor.run c d.cells k =
      (d.cells, { editor with val := v }, [.line c (showHex v.toNat)])) :
    Follows b memory d [.command c k] (setVal s c v) :=
  follows_command h hsession hrun h.backed rfl
    (Client.Edits.atDesk_key
      ⟨hedits.size, rfl, hedits.offset, hedits.mapped, hedits.unmapped⟩ rfl)

/-- An arrow key stays within the array: the up key stops one byte before its end. -/
theorem follows_arrow (h : Refines b memory s d) (hsession : d.session = some (c, some editor))
    (hedits : (s.client c).Edits b editor) (ch : ℤ) :
    Follows b memory d ((arrowCommand ch).map (.command c)).toList (arrow pageShift s c ch) := by
  have hoffset := editor.offset.isLt
  rw [arrow, arrowCommand, hedits.offset, hedits.size, hedits.val]
  split_ifs with hdown hne hup hlt hright hleft
  · have hprev : editor.offset.val - 1 < bufferSize pageShift := by omega
    refine follows_fill h hsession hedits ⟨editor.offset - 1, hprev⟩ ?_
    rw [Editor.run, if_pos hne]
  · refine follows_idle h hsession hedits ?_
    rw [Editor.run, if_neg hne]
  · have hnext : editor.offset.val + 1 < bufferSize pageShift := by omega
    refine follows_fill h hsession hedits ⟨editor.offset + 1, hnext⟩ ?_
    rw [Editor.run, dif_pos hnext]
  · have hlast : ¬editor.offset.val + 1 < bufferSize pageShift := by omega
    refine follows_idle h hsession hedits ?_
    rw [Editor.run, dif_neg hlast]
  · exact follows_setVal h hsession hedits _ rfl
  · exact follows_setVal h hsession hedits _ rfl
  · exact h.follows_move hsession rfl ((hedits.goTo .key).atDesk_key rfl)

omit [DecidableEq C] in
theorem Refines.exists_editor (h : Refines b memory s d)
    (hpc : (s.client c).pc = .key ∨ (s.client c).pc = .escape ∨ (s.client c).pc = .bracket) :
    ∃ editor, d.session = some (c, some editor) ∧ (s.client c).Edits b editor := by
  have hholds : (s.client c).pc.holds = true := by
    rcases hpc with hpc | hpc | hpc <;> rw [hpc] <;> rfl
  obtain ⟨e, hsession, hat⟩ := h.session hholds
  obtain ⟨editor, rfl, hedits⟩ := Client.Edits.of_key hat hpc
  exact ⟨editor, hsession, hedits⟩

/-- Only the third character of an arrow key comes to the desk. -/
theorem follows_getchar (h : Refines b memory s d) {ch : ℤ}
    (hstep : getchar pageShift s c ch = some out) :
    Follows b memory d (visit b s (.getchar c ch)) out := by
  rw [visit]
  cases hpc : (s.client c).pc with
  | key =>
    obtain ⟨editor, hsession, hedits⟩ := h.exists_editor (Or.inl hpc)
    rw [if_neg (by decide)]
    simp only [getchar, hpc] at hstep
    split_ifs at hstep with hq hd hescape
    · obtain rfl := Option.some.inj hstep
      exact h.follows_move hsession rfl trivial
    · obtain rfl := Option.some.inj hstep
      refine h.follows_move hsession rfl ⟨editor, rfl, ?_, Nat.zero_le 16, fun _ => rfl, rfl⟩
      exact ⟨hedits.size, hedits.val, hedits.offset, hedits.mapped, hedits.unmapped⟩
    · obtain rfl := Option.some.inj hstep
      exact h.follows_move hsession rfl ⟨editor, rfl, hedits.goTo .escape⟩
    · obtain rfl := Option.some.inj hstep
      exact ⟨d, rfl, h⟩
  | escape =>
    obtain ⟨editor, hsession, hedits⟩ := h.exists_editor (Or.inr (Or.inl hpc))
    rw [if_neg (by decide)]
    simp only [getchar, hpc, Option.some.injEq] at hstep
    obtain rfl := hstep
    split_ifs
    · exact h.follows_move hsession rfl ⟨editor, rfl, hedits.goTo .bracket⟩
    · exact h.follows_move hsession rfl ⟨editor, rfl, hedits.goTo .key⟩
  | bracket =>
    obtain ⟨editor, hsession, hedits⟩ := h.exists_editor (Or.inr (Or.inr hpc))
    rw [if_pos rfl]
    simp only [getchar, hpc, Option.some.injEq] at hstep
    obtain rfl := hstep
    exact follows_arrow h hsession hedits ch
  | openDevice | readProc | mmap | dump i | munmap | close | exited => simp [getchar, hpc] at hstep

/-- A dump prints the bytes that are there when its line ends. -/
theorem follows_loadNext (h : Refines b memory s d) (hstep : loadNext pageShift s c = some out) :
    Follows b memory d (visit b s (.load c)) out := by
  cases hpc : (s.client c).pc with
  | dump i =>
    obtain ⟨e, hsession, hat⟩ := h.session (c := c) (by rw [hpc]; rfl)
    rw [Client.AtDesk, hpc] at hat
    obtain ⟨editor, rfl, hedits, hi, hunmapped, hline⟩ := hat
    have hsize := sixteen_le_bufferSize (Nat.zero_lt_of_lt editor.offset.isLt)
    simp only [visit, hpc, hedits.isSome_kernelBuff]
    simp only [loadNext, hpc] at hstep
    split_ifs at hstep with hmore
    · obtain rfl := Option.some.inj hstep
      have hin : i < bufferSize pageShift := by omega
      cases hmapped : editor.mapped with
      | true =>
        rw [if_pos ⟨hmore, rfl⟩, access_mapped hedits hmapped ⟨i, hin⟩]
        refine h.follows_move hsession rfl ⟨editor, rfl, ⟨hedits.size, hedits.val, hedits.offset,
          hedits.mapped, hedits.unmapped⟩, hmore, fun hno => ?_, ?_⟩
        · rw [hmapped] at hno
          cases hno
        · have hbyte : (List.ofFn d.cells)[i]? = some (s.memory (b.base + i)) := by
            rw [List.getElem?_ofFn, dif_pos hin, ← h.backed.cells ⟨i, hin⟩]
          rw [List.take_add_one, hbyte, List.flatMap_append, hline]
          simp
      | false =>
        rw [if_neg (by simp), access_unmapped hedits hmapped]
        exact follows_fault h hsession (by simp [Editor.run, hmapped])
    · obtain rfl := Option.some.inj hstep
      obtain rfl : i = 16 := by omega
      have hmapped : editor.mapped = true := by
        by_contra hno
        exact absurd (hunmapped (Bool.eq_false_iff.mpr hno)) (by decide)
      have hrun : editor.run c d.cells .dump = (d.cells, editor, [.line c (dumpLine d.cells)]) := by
        rw [Editor.run, if_pos hmapped]
      rw [if_neg (by simp), hline]
      exact follows_command h hsession hrun h.backed rfl ((hedits.goTo .key).atDesk_key rfl)
  | openDevice | readProc | mmap | key | escape | bracket | munmap | close | exited =>
    simp [loadNext, hpc] at hstep

theorem follows_openDevice (h : Refines b memory s d)
    (hstep : memoryClients b s (.openDevice c) = some out) :
    Follows b memory d [.enter c] out := by
  rw [memoryClients] at hstep
  split_ifs at hstep with hpc
  have hfresh : s.client c = .started := h.seated.fresh c hpc
  have haway : (s.client c).pc.holds = false := by
    rw [hpc]
    rfl
  cases hsession : d.session with
  | none =>
    have hlocked : s.locked = false := by
      rw [h.locked, hsession]
      rfl
    simp only [hlocked, memoryOpen, Bool.false_eq_true, if_false, if_true, Option.some.injEq]
      at hstep
    obtain rfl := hstep
    have henter : desk d (.enter c) = some ({ d with session := some (c, none) }, [.opened c]) := by
      simp [desk, hsession]
    have hseated := h.seated
    rw [hsession] at hseated
    refine ⟨_, exec_single henter, rfl, h.backed, hseated.enter rfl ?_⟩
    rw [hfresh]
    exact ⟨rfl, rfl, rfl⟩
  | some session =>
    have hlocked : s.locked = true := by
      rw [h.locked, hsession]
      rfl
    have hbusy : (memoryOpen true).1 ≠ 0 := by decide
    simp only [hlocked, hbusy, if_false, Option.some.injEq] at hstep
    obtain rfl := hstep
    have hrefuse : desk d (.enter c) = some (d, [.busy c]) := by simp [desk, hsession]
    exact ⟨d, exec_single hrefuse, h.locked, h.backed, h.seated.away haway rfl nofun⟩

theorem follows_readProc (h : Refines b memory s d) {isOpen : Bool}
    (hstep : memoryClients b s (.readProc c isOpen) = some out) :
    Follows b memory d (visit b s (.readProc c isOpen)) out := by
  rw [memoryClients] at hstep
  rw [visit]
  split_ifs at hstep ⊢ with hopen hpc hpc
  · obtain ⟨e, hsession, hat⟩ := h.session (c := c) (by rw [hpc]; rfl)
    rw [Client.AtDesk, hpc] at hat
    obtain ⟨rfl, hval, hoffset⟩ := hat
    have hseat : d.seat c = some none := Desk.seat_eq_some.mpr hsession
    rw [parseSize_procText] at hstep
    by_cases hsize : bufferSize pageShift < 2 ^ 31
    · rw [if_pos hsize] at hstep
      obtain rfl := Option.some.inj hstep
      have hlook : desk d (.look c) = some (d, [.size c (bufferSize pageShift)]) := by
        rw [desk, if_pos hseat, if_pos hsize]
      refine ⟨d, exec_single hlook, ?_⟩
      split_ifs with hpos
      · exact h.move hsession rfl ⟨rfl, hval, hoffset, by omega, rfl⟩
      · exact h.move hsession rfl trivial
    · rw [if_neg hsize] at hstep
      obtain rfl := Option.some.inj hstep
      have hlook : desk d (.look c) = some (d, []) := by
        rw [desk, if_pos hseat, if_neg hsize]
      exact ⟨d, exec_single hlook, h.move hsession rfl trivial⟩
  · obtain ⟨e, hsession, -⟩ := h.session (c := c) (by rw [hpc]; rfl)
    obtain rfl := Option.some.inj hstep
    exact h.follows_move hsession rfl trivial

theorem follows_begin (h : Refines b memory s d) (hpc : (s.client c).pc = .mmap) (mapped : Bool)
    {buff : Option Remap} (hmapped : mapped = true → ∃ r, buff = some r ∧
      ∀ i : Fin (bufferSize pageShift), translate pageShift r i = some (b.base + i))
    (hunmapped : mapped = false → buff = none) :
    Follows b memory d [.begin c mapped]
      (s.setClient c { s.client c with pc := .key, kernelBuff := buff }, []) := by
  obtain ⟨e, hsession, hat⟩ := h.session (c := c) (by rw [hpc]; rfl)
  rw [Client.AtDesk, hpc] at hat
  obtain ⟨rfl, hval, hoffset, hpos, hsize⟩ := hat
  have hseat : d.seat c = some none := Desk.seat_eq_some.mpr hsession
  have hbegin : desk d (.begin c mapped) =
      some ({ d with session := some (c, some ⟨mapped, ⟨0, hpos⟩, 0⟩) }, []) := by
    simp [desk, hseat, hpos]
  refine ⟨_, exec_single hbegin, h.setEditor hsession rfl ?_⟩
  exact ⟨_, rfl, hsize, hval, hoffset, hmapped, hunmapped⟩

omit [DecidableEq C] in
theorem Refines.mmapBufferSize (h : Refines b memory s d) (hpc : (s.client c).pc = .mmap) :
    (s.client c).mmapBufferSize = bufferSize pageShift := by
  obtain ⟨e, -, hat⟩ := h.session (c := c) (by rw [hpc]; rfl)
  rw [Client.AtDesk, hpc] at hat
  exact hat.2.2.2.2

theorem follows_mmap (h : Refines b memory s d) {area : Option (VmAreaStruct × ℤ)}
    (hstep : memoryClients b s (.mmap c area) = some out) :
    Follows b memory d [.begin c (granted b area)] out := by
  cases area with
  | none =>
    rw [memoryClients] at hstep
    split_ifs at hstep with hpc
    obtain rfl := Option.some.inj hstep
    exact follows_begin h hpc false (by simp) (by simp)
  | some request =>
    obtain ⟨vma, answer⟩ := request
    rw [memoryClients] at hstep
    split_ifs at hstep with hpc hrequest
    obtain rfl := Option.some.inj hstep
    rw [h.mmapBufferSize hpc] at hrequest
    refine follows_begin h hpc _ (fun hgranted => ?_) fun hrefused => ?_
    · have hret := of_decide_eq_true hgranted
      rw [if_pos hret]
      exact ⟨vma.remap b.toKmallocBuffer, remap_of_ret hret,
        fun i => translate_remap b hrequest i.isLt⟩
    · rw [if_neg (of_decide_eq_false hrefused)]

theorem follows_close (h : Refines b memory s d)
    (hstep : memoryClients b s (.close c) = some out) : Follows b memory d [.leave c] out := by
  rw [memoryClients] at hstep
  split_ifs at hstep with hpc
  obtain rfl := Option.some.inj hstep
  obtain ⟨e, hsession, -⟩ := h.session (c := c) (by rw [hpc]; rfl)
  have hseat : d.seat c = some e := Desk.seat_eq_some.mpr hsession
  have hleave : desk d (.leave c) = some ({ d with session := none }, [.closed c]) := by
    simp [desk, hseat]
  have hseated := h.seated
  rw [hsession] at hseated
  exact ⟨_, exec_single hleave, rfl, h.backed, hseated.leave rfl⟩

/-- A client that is killed past `open` has yet to give the mutex back. -/
theorem follows_kill (h : Refines b memory s d)
    (hstep : memoryClients b s (.kill c) = some out) : Follows b memory d [] out := by
  cases hpc : (s.client c).pc with
  | exited => simp [memoryClients, hpc] at hstep
  | openDevice =>
    simp only [memoryClients, hpc, Option.some.injEq] at hstep
    obtain rfl := hstep
    have haway : (s.client c).pc.holds = false := by
      rw [hpc]
      rfl
    exact ⟨d, rfl, h.locked, h.backed, h.seated.away haway rfl nofun⟩
  | readProc | mmap | key | escape | bracket | dump i | munmap | close =>
    obtain ⟨e, hsession, -⟩ := h.session (c := c) (by rw [hpc]; rfl)
    simp only [memoryClients, hpc, Option.some.injEq] at hstep
    obtain rfl := hstep
    exact h.follows_move hsession rfl trivial

theorem follows_step (h : Refines b memory s d) {a : Action C}
    (hstep : memoryClients b s a = some out) : Follows b memory d (visit b s a) out := by
  cases a with
  | start c =>
    rw [memoryClients] at hstep
    split_ifs at hstep with hpc
    obtain rfl := Option.some.inj hstep
    have haway : (s.client c).pc.holds = false := by
      rw [hpc]
      rfl
    exact ⟨d, rfl, h.locked, h.backed, h.seated.away haway rfl fun _ => rfl⟩
  | openDevice c => exact follows_openDevice h hstep
  | readProc c isOpen => exact follows_readProc h hstep
  | mmap c area => exact follows_mmap h hstep
  | getchar c ch => exact follows_getchar h hstep
  | load c => exact follows_loadNext h hstep
  | munmap c =>
    rw [memoryClients] at hstep
    split_ifs at hstep with hpc
    obtain rfl := Option.some.inj hstep
    obtain ⟨e, hsession, -⟩ := h.session (c := c) (by rw [hpc]; rfl)
    exact h.follows_move hsession rfl trivial
  | close c => exact follows_close h hstep
  | kill c => exact follows_kill h hstep

end Steps

section Faults

variable {size : ℕ} {d d' : Desk C size} {e : Editor size} {c c' : C} {a : DeskAction C}
  {seen tr : List (Seen C)}

def Desk.Unmapped (d : Desk C size) (c : C) : Prop :=
  ∃ e, d.session = some (c, some e) ∧ e.mapped = false

omit [DecidableEq C] in
theorem Editor.run_mapped (k : Command) (cells : Fin size → Byte) :
    (e.run c cells k).2.1.mapped = e.mapped := by
  cases k <;> simp only [Editor.run, Editor.fill] <;> split_ifs <;> rfl

omit [DecidableEq C] in
theorem Editor.unmapped_of_mem {text : List Char}
    (h : Seen.faulted c ∈ if e.mapped then [Seen.line c' text] else [.faulted c']) :
    c' = c ∧ e.mapped = false := by
  split_ifs at h with hmapped
  · simp at h
  · exact ⟨(Seen.faulted.inj (List.mem_singleton.mp h)).symm, Bool.eq_false_iff.mpr hmapped⟩

omit [DecidableEq C] in
theorem Editor.unmapped_of_faulted {k : Command} {cells : Fin size → Byte}
    (h : Seen.faulted c ∈ (e.run c' cells k).2.2) : c' = c ∧ e.mapped = false := by
  cases k with
  | down | up =>
    rw [Editor.run] at h
    split_ifs at h
    · rw [Editor.fill, apply_ite Prod.snd, apply_ite Prod.snd] at h
      exact unmapped_of_mem h
    · simp at h
  | right | left => simp [Editor.run] at h
  | dump => exact unmapped_of_mem h

/-- A visitor without a mapping has begun without one, and only such a one runs into a fault. -/
theorem unmapped_of_step (hstep : desk d a = some (d', seen))
    (h : Seen.faulted c ∈ seen ∨ d'.Unmapped c) : a = .begin c false ∨ d.Unmapped c := by
  cases a with
  | enter c' =>
    rw [desk] at hstep
    split_ifs at hstep <;> obtain ⟨rfl, rfl⟩ := Prod.mk.inj (Option.some.inj hstep)
    · exact Or.inr (by simpa using h)
    · simp [Desk.Unmapped] at h
  | look c' =>
    rw [desk] at hstep
    split_ifs at hstep <;> obtain ⟨rfl, rfl⟩ := Prod.mk.inj (Option.some.inj hstep) <;>
      exact Or.inr (by simpa using h)
  | begin c' mapped =>
    rw [desk] at hstep
    split_ifs at hstep
    split at hstep
    · obtain ⟨rfl, rfl⟩ := Prod.mk.inj (Option.some.inj hstep)
      obtain ⟨e, hsession, hmapped⟩ := h.resolve_left (by simp)
      simp only [Option.some.injEq, Prod.mk.injEq] at hsession
      obtain ⟨rfl, rfl⟩ := hsession
      exact Or.inl (congrArg _ hmapped)
    · cases hstep
  | command c' k =>
    rw [desk] at hstep
    split at hstep
    · next e hseat =>
      obtain ⟨rfl, rfl⟩ := Prod.mk.inj (Option.some.inj hstep)
      rw [Desk.seat_eq_some] at hseat
      right
      rcases h with hfault | ⟨e', hsession, hmapped⟩
      · obtain ⟨rfl, hmapped⟩ := Editor.unmapped_of_faulted hfault
        exact ⟨e, hseat, hmapped⟩
      · simp only [Option.some.injEq, Prod.mk.injEq] at hsession
        obtain ⟨rfl, rfl⟩ := hsession
        exact ⟨e, hseat, by rwa [Editor.run_mapped] at hmapped⟩
    · cases hstep
  | leave c' =>
    rw [desk] at hstep
    split at hstep
    · obtain ⟨rfl, rfl⟩ := Prod.mk.inj (Option.some.inj hstep)
      simp [Desk.Unmapped] at h
    · cases hstep

theorem begin_of_faulted : ∀ {as : List (DeskAction C)} {d d' : Desk C size} {tr : List (Seen C)},
    exec desk d as = some (d', tr) → Seen.faulted c ∈ tr ∨ d'.Unmapped c →
      DeskAction.begin c false ∈ as ∨ d.Unmapped c
  | [], d, d', tr, hrun, h => by
    obtain ⟨rfl, rfl⟩ := Prod.mk.inj (Option.some.inj hrun)
    exact Or.inr (by simpa using h)
  | a :: as, d, d', tr, hrun, h => by
    obtain ⟨d₁, seen, rest, hstep, hrest, rfl⟩ := exec_cons_eq_some hrun
    rw [List.mem_append, or_assoc] at h
    have hfirst : Seen.faulted c ∈ seen ∨ d₁.Unmapped c →
        DeskAction.begin c false ∈ a :: as ∨ d.Unmapped c := fun hbefore =>
      (unmapped_of_step hstep hbefore).imp_left fun ha => by simp [ha]
    rcases h with hseen | hlater
    · exact hfirst (Or.inl hseen)
    · rcases begin_of_faulted hrest hlater with hbegin | hunmapped
      · exact Or.inl (List.mem_cons_of_mem a hbegin)
      · exact hfirst (Or.inr hunmapped)

omit [DecidableEq C] in
theorem eq_mmap_of_begin {s : State C} {a : Action C} {mapped : Bool}
    (h : DeskAction.begin c mapped ∈ visit b s a) :
    ∃ area, a = .mmap c area ∧ granted b area = mapped := by
  cases a with
  | mmap c' area =>
    obtain ⟨rfl, rfl⟩ : c = c' ∧ mapped = granted b area := by simpa [visit] using h
    exact ⟨area, rfl, rfl⟩
  | start c' | openDevice c' | readProc c' isOpen | munmap c' | close c' | kill c' =>
    simp [visit] at h
  | getchar c' ch => simp [visit] at h
  | load c' =>
    rw [visit] at h
    split at h
    · split_ifs at h <;> simp at h
    · simp at h

end Faults

omit [DecidableEq C] in
theorem refines_started (b : PageBuffer pageShift) (memory : ℕ → Byte) :
    Refines b memory (started memory : State C) ⟨b.cells memory, none⟩ where
  locked := rfl
  backed := backed_cells b memory
  seated := ⟨fun _ _ => rfl, by simp [started, Client.started, Pc.holds], by simp⟩

/-- Any number of clients on the module, killed at any time: what they print is what the desk
shows to visitors who come one after the other, each with the keys and the mapping of one client.
Its bytes are those of the buffer, the rest of the memory is as it was, a client holds the device
exactly while it sits at the desk, and only a client whose `mmap` failed runs into a fault. -/
theorem memory_clients_refine {memory : ℕ → Byte} {as : List (Action C)} {s : State C}
    {tr : List (Seen C)} (h : exec (memoryClients b) (started memory) as = some (s, tr)) :
    ∃ d, exec desk ⟨b.cells memory, none⟩
        (relabel (memoryClients b) (visit b) (started memory) as) = some (d, tr) ∧
      (∀ i : Fin (bufferSize pageShift), s.memory (b.base + i) = d.cells i) ∧
      (∀ a, (a < b.base ∨ b.base + bufferSize pageShift ≤ a) → s.memory a = memory a) ∧
      (∀ c, (s.client c).pc.holds = true ↔ ∃ e, d.session = some (c, e)) ∧
      ∀ c, Seen.faulted c ∈ tr → ∃ area, Action.mmap c area ∈ as ∧ granted b area = false := by
  obtain ⟨d, hd, hrefines⟩ := exec_relabel (R := Refines b memory)
    (fun _ _ _ _ _ hR hs => follows_step hR hs) (refines_started b memory) h
  refine ⟨d, hd, hrefines.backed.cells, fun a ha => ?_, hrefines.seated.holds_iff, fun c hc => ?_⟩
  · refine hrefines.backed.outside a fun i heq => ?_
    have hi := i.isLt
    omega
  · rcases begin_of_faulted hd (Or.inl hc) with hbegin | ⟨e, hsession, -⟩
    · obtain ⟨a, ha, t, hvisit⟩ := exists_mem_of_mem_relabel hbegin
      obtain ⟨area, rfl, hrefused⟩ := eq_mmap_of_begin hvisit
      exact ⟨area, ha, hrefused⟩
    · cases hsession

def alignedPages : PageBuffer 12 := { smallPages with aligned := by decide }

def wholeArea : VmAreaStruct := ⟨0, 0x10000, 0, vmWrite ||| vmShared, 0, by decide⟩

/-- One client stores a byte while the other is turned away; the other comes back, and without a
mapping it cannot print the bytes. -/
def twoClients : List (Action Bool) :=
  [.openDevice false, .openDevice true, .readProc false true, .mmap false (some (wholeArea, 0)),
    .getchar false 27, .getchar false 91, .getchar false 65, .getchar false 113, .munmap false,
    .close false, .start true, .openDevice true, .readProc true true, .mmap true none,
    .getchar true 100, .load true]

theorem two_clients_refine : ∃ (s : State Bool) (tr : List (Seen Bool)),
    tr = [.opened false, .busy true, .size false 65536, .line false ['1', ':', '0'],
      .closed false, .opened true, .size true 65536, .faulted true] ∧
      ∃ d, exec desk ⟨alignedPages.cells fun _ => 7, none⟩
          (relabel (memoryClients alignedPages) (visit alignedPages) (started fun _ => 7)
            twoClients) = some (d, tr) ∧
        (∀ i : Fin (bufferSize 12), s.memory (alignedPages.base + i) = d.cells i) ∧
        (∀ a, (a < alignedPages.base ∨ alignedPages.base + bufferSize 12 ≤ a) → s.memory a = 7) ∧
        (∀ c, (s.client c).pc.holds = true ↔ ∃ e, d.session = some (c, e)) ∧
        ∀ c, Seen.faulted c ∈ tr →
          ∃ area, Action.mmap c area ∈ twoClients ∧ granted alignedPages area = false := by
  have hrun : ∃ (s : State Bool) (tr : List (Seen Bool)),
      exec (memoryClients alignedPages) (started fun _ => 7) twoClients = some (s, tr) ∧
        tr = [.opened false, .busy true, .size false 65536, .line false ['1', ':', '0'],
          .closed false, .opened true, .size true 65536, .faulted true] := by
    decide +kernel
  obtain ⟨s, tr, hexec, htr⟩ := hrun
  exact ⟨s, tr, htr, memory_clients_refine hexec⟩

end LinuxOddsAndEnds.Ubuntu.MemoryClient
