import LinuxOddsAndEnds.Foundation.MaskedIndex
import LinuxOddsAndEnds.Foundation.Throughout
import LinuxOddsAndEnds.Oled.Painting

/-!
# The client of the OLED module

`ButtonProcessing` and `process_key_entry` of the test client `main.cpp`: a cursor
that arrow keys and the rocker move, and the commands sent on the way. Each handled
key or record is one event. Every pixel operation that runs shows where it found the
cursor and where it left it.
-/

namespace LinuxOddsAndEnds.Oled.Client

open Foundation

structure ButtonProcessing where
  oledEnabled : Bool
  oledFilled : Bool
  oledRectFilled : Bool
  xCur : Byte
  yCur : Byte
  deriving DecidableEq

/-- The constructor with its default cursor. -/
def constructed : ButtonProcessing := ⟨true, false, false, 0, 0⟩

inductive Direction where
  | down
  | up
  | right
  | left
  deriving DecidableEq

/-- System calls of the client, and the pixel operations it runs with the cursor before
and after. -/
inductive Seen where
  | write (cmdSequence : List Byte)
  | ioctl (cmd : BitVec 32)
  | moved (dir : Direction) (before after : Byte × Byte)
  deriving DecidableEq

/-- What a member function does to the object and shows. -/
abbrev Member := ButtonProcessing → ButtonProcessing × List Seen

def Member.seq (f g : Member) : Member := fun b =>
  ((g (f b).1).1, (f b).2 ++ (g (f b).1).2)

/-- The common shape of the pixel operations: behind its guard one coordinate is stored
and the pixel is sent. -/
def pixelMove (dir : Direction) (guard : Bool) (x y : Byte) : Member := fun b =>
  if guard then
    ({ b with xCur := x, yCur := y },
      [.moved dir (b.xCur, b.yCur) (x, y), .write [cmdSetPixel, x, y]])
  else (b, [.moved dir (b.xCur, b.yCur) (b.xCur, b.yCur)])

def pixelDown : Member := fun b => pixelMove .down (b.yCur < 63#8) b.xCur (b.yCur + 1#8) b

/-- The guard looks at the other coordinate. -/
def pixelUp : Member := fun b => pixelMove .up (0#8 < b.xCur) b.xCur (b.yCur - 1#8) b

def pixelRight : Member := fun b => pixelMove .right (b.xCur < 127#8) (b.xCur + 1#8) b.yCur b

def pixelLeft : Member := fun b => pixelMove .left (0#8 < b.xCur) (b.xCur - 1#8) b.yCur b

def toggleFill : Member := fun b =>
  if b.oledFilled then ({ b with oledFilled := false }, [.ioctl ioctlClearBuffer])
  else ({ b with oledFilled := true }, [.ioctl ioctlFillBuffer])

def lineToTopLeft : Member := fun b =>
  (b, [.write [cmdHLine, 0, b.yCur, b.xCur], .write [cmdVLine, b.xCur, 0, b.yCur]])

def rectToTopLeft : Member := fun b =>
  if b.oledRectFilled then
    ({ b with oledRectFilled := false }, [.write [cmdRectClear, 0, 0, b.xCur, b.yCur]])
  else ({ b with oledRectFilled := true }, [.write [cmdRectFill, 0, 0, b.xCur, b.yCur]])

/-- The menu writes to the terminal only. -/
def skip : Member := fun b => (b, [])

def toggleEnable : Member := fun b =>
  if b.oledEnabled then ({ b with oledEnabled := false }, [.ioctl ioctlDisable])
  else ({ b with oledEnabled := true }, [.ioctl ioctlEnable])

/-- A turn of the key loop. `next` and `keyVal` are what `getchar` answers when it is asked
again, which happens after an escape only. -/
def keyEntry (ch next keyVal : ℤ) : Member :=
  if ch = 104 then skip
  else if ch = 101 then toggleEnable
  else if ch = 102 then toggleFill
  else if ch = 108 then lineToTopLeft
  else if ch = 114 then rectToTopLeft
  else if ch = 27 then
    if next = 91 then
      if keyVal = 66 then pixelDown
      else if keyVal = 65 then pixelUp
      else if keyVal = 67 then pixelRight
      else if keyVal = 68 then pixelLeft
      else skip
    else skip
  else skip

/-- The `switch` of `Run`; `ROCKER_D` falls through to `ROCKER_N`. -/
def switchButton (buttonNumber : BitVec 64) : Member :=
  if buttonNumber = Gpio.button5.code.setWidth 64 then lineToTopLeft
  else if buttonNumber = Gpio.button6.code.setWidth 64 then rectToTopLeft
  else if buttonNumber = Gpio.rockerD.code.setWidth 64 then toggleFill.seq pixelUp
  else if buttonNumber = Gpio.rockerN.code.setWidth 64 then pixelUp
  else if buttonNumber = Gpio.rockerS.code.setWidth 64 then pixelDown
  else if buttonNumber = Gpio.rockerE.code.setWidth 64 then pixelRight
  else if buttonNumber = Gpio.rockerW.code.setWidth 64 then pixelLeft
  else skip

/-- What `Run` does with a complete record: the `switch`, then `PixelDown` once more for
`ROCKER_S`. The `int` button number is widened with its sign. -/
def runRecord (d : EventBulkData) : Member :=
  let buttonNumber := d.captureEvent.buttonNum.signExtend 64
  (switchButton buttonNumber).seq
    (if buttonNumber = Gpio.rockerS.code.setWidth 64 then pixelDown else skip)

inductive Event where
  | key (ch next keyVal : ℤ)
  | record (d : EventBulkData)

def handle : Event → Member
  | .key ch next keyVal => keyEntry ch next keyVal
  | .record d => runRecord d

def client : Machine ButtonProcessing Event Seen := fun b e => some (handle e b)

def OnScreen (b : ButtonProcessing) : Prop := b.xCur < 128#8 ∧ b.yCur < 64#8

/-- At most one step in the direction, without wrapping. -/
def Direction.Step : Direction → Byte × Byte → Byte × Byte → Prop
  | .down, p, q => q.1 = p.1 ∧ (q.2 = p.2 ∨ q.2.toNat = p.2.toNat + 1)
  | .up, p, q => q.1 = p.1 ∧ (q.2 = p.2 ∨ q.2.toNat + 1 = p.2.toNat)
  | .right, p, q => q.2 = p.2 ∧ (q.1 = p.1 ∨ q.1.toNat = p.1.toNat + 1)
  | .left, p, q => q.2 = p.2 ∧ (q.1 = p.1 ∨ q.1.toNat + 1 = p.1.toNat)

/-- The call as the driver receives it. -/
def Seen.userCall : Seen → Option UserCall
  | .write cmdSequence =>
    some (.write true (BitVec.ofNat 64 cmdSequence.length) (ofBytes cmdSequence))
  | .ioctl cmd => some (.ioctl cmd)
  | .moved _ _ _ => none

/-- A pixel command carries coordinates on the screen; a pixel operation moves the cursor
by at most one step in its own direction. -/
def Seen.Proper (o : Seen) : Prop :=
  (∀ c, o.userCall = some c → c.PixelOnScreen) ∧
    ∀ dir p q, o = .moved dir p q → dir.Step p q

def Event.runsPixelUp : Event → Bool
  | .key ch next keyVal => ch = 27 ∧ next = 91 ∧ keyVal = 65
  | .record d =>
    d.captureEvent.buttonNum = Gpio.rockerD.code ∨ d.captureEvent.buttonNum = Gpio.rockerN.code

/-- `PixelUp` is not run on the top row to the right of the first column. -/
def keepsBelowTop (b : ButtonProcessing) (e : Event) : Bool :=
  ¬(e.runsPixelUp = true ∧ b.yCur = 0 ∧ 0#8 < b.xCur)

section Members

variable {b : ButtonProcessing} {f g : Member}

/-- The member function keeps the cursor on the screen and shows only proper things. -/
structure Member.Safe (f : Member) (b : ButtonProcessing) : Prop where
  onScreen : OnScreen (f b).1
  proper : ∀ o ∈ (f b).2, o.Proper

theorem Member.Safe.seq (hf : f.Safe b) (hg : g.Safe (f b).1) : (f.seq g).Safe b := by
  refine ⟨hg.onScreen, ?_⟩
  intro o ho
  rcases List.mem_append.mp ho with h | h
  · exact hf.proper o h
  · exact hg.proper o h

theorem Member.Safe.ite {c : Prop} [Decidable c] (hf : c → f.Safe b) (hg : ¬c → g.Safe b) :
    Member.Safe (if c then f else g) b := by
  by_cases hc : c
  · rw [if_pos hc]
    exact hf hc
  · rw [if_neg hc]
    exact hg hc

theorem proper_ioctl (cmd : BitVec 32) : (Seen.ioctl cmd).Proper := by
  refine ⟨?_, nofun⟩
  rintro c ⟨rfl⟩
  trivial

theorem proper_write {cmdSequence : List Byte}
    (h : cmdSequence.length = 4 ∨ cmdSequence.length = 5) : (Seen.write cmdSequence).Proper := by
  refine ⟨?_, nofun⟩
  rintro c ⟨rfl⟩ hcount
  rcases h with h | h
  · rw [h] at hcount
    exact absurd hcount (by decide)
  · rw [h] at hcount
    exact absurd hcount (by decide)

theorem proper_pixel {x y : Byte} (hx : x < 128#8) (hy : y < 64#8) :
    (Seen.write [cmdSetPixel, x, y]).Proper := by
  refine ⟨?_, nofun⟩
  rintro c ⟨rfl⟩ _ _
  exact ⟨hx, hy⟩

theorem proper_moved {dir : Direction} {p q : Byte × Byte} (h : dir.Step p q) :
    (Seen.moved dir p q).Proper := by
  refine ⟨nofun, ?_⟩
  rintro _ _ _ ⟨rfl⟩
  exact h

theorem Direction.Step.refl (dir : Direction) (p : Byte × Byte) : dir.Step p p := by
  cases dir <;> exact ⟨rfl, Or.inl rfl⟩

theorem skip_safe (h : OnScreen b) : skip.Safe b := ⟨h, nofun⟩

/-- A pixel operation is safe if behind its guard it makes a step on the screen. -/
theorem pixelMove_safe {dir : Direction} {guard : Bool} {x y : Byte} (h : OnScreen b)
    (hf : f b = pixelMove dir guard x y b)
    (hguard : guard = true → (x < 128#8 ∧ y < 64#8) ∧ dir.Step (b.xCur, b.yCur) (x, y)) :
    f.Safe b := by
  unfold pixelMove at hf
  split_ifs at hf with hg
  · obtain ⟨⟨hx, hy⟩, hstep⟩ := hguard hg
    refine ⟨by rw [hf]; exact ⟨hx, hy⟩, ?_⟩
    intro o ho
    simp only [hf, List.mem_cons, List.not_mem_nil, or_false] at ho
    rcases ho with rfl | rfl
    · exact proper_moved hstep
    · exact proper_pixel hx hy
  · refine ⟨by rw [hf]; exact h, ?_⟩
    intro o ho
    rw [hf] at ho
    rw [List.mem_singleton.mp ho]
    exact proper_moved (.refl dir _)

theorem toNat_next {x : Byte} (hx : x.toNat < 255) : (x + 1#8).toNat = x.toNat + 1 :=
  BitVec.toNat_add_of_lt (by simp; omega)

theorem toNat_pred {x : Byte} (hx : 0 < x.toNat) : (x - 1#8).toNat + 1 = x.toNat := by
  rw [toNat_sub_one hx.ne', Nat.sub_add_cancel hx]

theorem pixelDown_safe (h : OnScreen b) : pixelDown.Safe b := by
  refine pixelMove_safe h rfl ?_
  intro hg
  have hy : b.yCur.toNat < 63 := by simpa [BitVec.lt_def] using hg
  have hnext := toNat_next (by omega : b.yCur.toNat < 255)
  refine ⟨⟨h.1, ?_⟩, rfl, Or.inr hnext⟩
  rw [BitVec.lt_def, hnext, BitVec.toNat_ofNat]
  omega

theorem pixelRight_safe (h : OnScreen b) : pixelRight.Safe b := by
  refine pixelMove_safe h rfl ?_
  intro hg
  have hx : b.xCur.toNat < 127 := by simpa [BitVec.lt_def] using hg
  have hnext := toNat_next (by omega : b.xCur.toNat < 255)
  refine ⟨⟨?_, h.2⟩, rfl, Or.inr hnext⟩
  rw [BitVec.lt_def, hnext, BitVec.toNat_ofNat]
  omega

theorem pixelLeft_safe (h : OnScreen b) : pixelLeft.Safe b := by
  refine pixelMove_safe h rfl ?_
  intro hg
  have hx : 0 < b.xCur.toNat := by simpa [BitVec.lt_def] using hg
  have hprev := toNat_pred hx
  have hlt := h.1
  refine ⟨⟨?_, h.2⟩, rfl, Or.inr hprev⟩
  rw [BitVec.lt_def] at hlt ⊢
  omega

theorem pixelUp_safe (h : OnScreen b) (hok : ¬(b.yCur = 0#8 ∧ 0#8 < b.xCur)) : pixelUp.Safe b := by
  refine pixelMove_safe h rfl ?_
  intro hg
  have hy : 0 < b.yCur.toNat := by
    rw [Nat.pos_iff_ne_zero]
    intro hz
    exact hok ⟨BitVec.eq_of_toNat_eq hz, by simpa using hg⟩
  have hprev := toNat_pred hy
  have hlt := h.2
  refine ⟨⟨h.1, ?_⟩, rfl, Or.inr hprev⟩
  rw [BitVec.lt_def] at hlt ⊢
  omega

/-- On the top row `PixelUp` wraps the coordinate that it does not test. -/
theorem pixelUp_unsafe (hy : b.yCur = 0#8) (hx : 0#8 < b.xCur) :
    ∃ o ∈ (pixelUp b).2, ¬o.Proper := by
  refine ⟨.moved .up (b.xCur, b.yCur) (b.xCur, b.yCur - 1#8), ?_, ?_⟩
  · simp [pixelUp, pixelMove, hx]
  · intro hp
    have hstep : b.yCur - 1#8 = b.yCur ∨ (b.yCur - 1#8).toNat + 1 = b.yCur.toNat :=
      (hp.2 _ _ _ rfl).2
    rw [hy] at hstep
    exact absurd hstep (by decide)

theorem toggleFill_cursor (b : ButtonProcessing) :
    (toggleFill b).1.xCur = b.xCur ∧ (toggleFill b).1.yCur = b.yCur := by
  unfold toggleFill
  split_ifs <;> exact ⟨rfl, rfl⟩

theorem toggleFill_safe (h : OnScreen b) : toggleFill.Safe b := by
  unfold toggleFill
  constructor
  · split_ifs <;> exact h
  · intro o ho
    split_ifs at ho <;> rw [List.mem_singleton.mp ho] <;> exact proper_ioctl _

theorem toggleEnable_safe (h : OnScreen b) : toggleEnable.Safe b := by
  unfold toggleEnable
  constructor
  · split_ifs <;> exact h
  · intro o ho
    split_ifs at ho <;> rw [List.mem_singleton.mp ho] <;> exact proper_ioctl _

theorem rectToTopLeft_safe (h : OnScreen b) : rectToTopLeft.Safe b := by
  unfold rectToTopLeft
  constructor
  · split_ifs <;> exact h
  · intro o ho
    split_ifs at ho <;> rw [List.mem_singleton.mp ho] <;> exact proper_write (Or.inr rfl)

theorem lineToTopLeft_safe (h : OnScreen b) : lineToTopLeft.Safe b := by
  refine ⟨h, ?_⟩
  intro o ho
  simp only [lineToTopLeft, List.mem_cons, List.not_mem_nil, or_false] at ho
  rcases ho with rfl | rfl <;> exact proper_write (Or.inl rfl)

theorem keyEntry_safe (h : OnScreen b) {ch next keyVal : ℤ}
    (hok : ch = 27 → next = 91 → keyVal = 65 → ¬(b.yCur = 0#8 ∧ 0#8 < b.xCur)) :
    (keyEntry ch next keyVal).Safe b := by
  unfold keyEntry
  refine .ite (fun _ => skip_safe h) fun _ => ?_
  refine .ite (fun _ => toggleEnable_safe h) fun _ => ?_
  refine .ite (fun _ => toggleFill_safe h) fun _ => ?_
  refine .ite (fun _ => lineToTopLeft_safe h) fun _ => ?_
  refine .ite (fun _ => rectToTopLeft_safe h) fun _ => ?_
  refine .ite (fun hch => ?_) fun _ => skip_safe h
  refine .ite (fun hnext => ?_) fun _ => skip_safe h
  refine .ite (fun _ => pixelDown_safe h) fun _ => ?_
  refine .ite (fun hval => pixelUp_safe h (hok hch hnext hval)) fun _ => ?_
  refine .ite (fun _ => pixelRight_safe h) fun _ => ?_
  exact .ite (fun _ => pixelLeft_safe h) fun _ => skip_safe h

theorem signExtend_eq_code {n : BitVec 32} {g : Gpio} :
    n.signExtend 64 = g.code.setWidth 64 ↔ n = g.code := by
  constructor
  · intro h
    have hw : (n.signExtend 64).toNat % 2 ^ 32 = n.toNat % 2 ^ 32 :=
      toNat_signExtend_mod n le_rfl (by omega)
    have hn := n.isLt
    have hg := g.code.isLt
    rw [h, BitVec.toNat_setWidth] at hw
    apply BitVec.eq_of_toNat_eq
    omega
  · rintro rfl
    cases g <;> rfl

theorem switchButton_safe (h : OnScreen b) {n : BitVec 32}
    (hok : n = Gpio.rockerD.code ∨ n = Gpio.rockerN.code → ¬(b.yCur = 0#8 ∧ 0#8 < b.xCur)) :
    (switchButton (n.signExtend 64)).Safe b := by
  unfold switchButton
  simp only [signExtend_eq_code]
  refine .ite (fun _ => lineToTopLeft_safe h) fun _ => ?_
  refine .ite (fun _ => rectToTopLeft_safe h) fun _ => ?_
  refine .ite (fun hd => ?_) fun _ => ?_
  · have ht := toggleFill_safe h
    refine ht.seq (pixelUp_safe ht.onScreen ?_)
    rw [(toggleFill_cursor b).1, (toggleFill_cursor b).2]
    exact hok (Or.inl hd)
  refine .ite (fun hn => pixelUp_safe h (hok (Or.inr hn))) fun _ => ?_
  refine .ite (fun _ => pixelDown_safe h) fun _ => ?_
  refine .ite (fun _ => pixelRight_safe h) fun _ => ?_
  exact .ite (fun _ => pixelLeft_safe h) fun _ => skip_safe h

theorem handle_safe (h : OnScreen b) {e : Event} (hok : keepsBelowTop b e = true) :
    (handle e).Safe b := by
  have hup : e.runsPixelUp = true → ¬(b.yCur = 0#8 ∧ 0#8 < b.xCur) := by
    intro he hbad
    simp [keepsBelowTop, he, hbad.1, hbad.2] at hok
  cases e with
  | key ch next keyVal =>
    refine keyEntry_safe h ?_
    rintro rfl rfl rfl
    exact hup rfl
  | record d =>
    have hswitch := switchButton_safe h (n := d.captureEvent.buttonNum)
      (fun hn => hup (decide_eq_true hn))
    refine hswitch.seq ?_
    split_ifs
    · exact pixelDown_safe hswitch.onScreen
    · exact skip_safe hswitch.onScreen

theorem handle_unsafe {e : Event} (hbad : keepsBelowTop b e = false) :
    ∃ o ∈ (handle e b).2, ¬o.Proper := by
  obtain ⟨hup, hy, hx⟩ : e.runsPixelUp = true ∧ b.yCur = 0#8 ∧ 0#8 < b.xCur := by
    by_contra hc
    exact Bool.false_ne_true (hbad.symm.trans (decide_eq_true hc))
  cases e with
  | key ch next keyVal =>
    obtain ⟨rfl, rfl, rfl⟩ : ch = 27 ∧ next = 91 ∧ keyVal = 65 := by
      simpa [Event.runsPixelUp] using hup
    exact pixelUp_unsafe hy hx
  | record d =>
    have hfirst : ∃ o ∈ (switchButton (d.captureEvent.buttonNum.signExtend 64) b).2, ¬o.Proper := by
      simp only [switchButton, signExtend_eq_code]
      rcases (of_decide_eq_true hup : _ ∨ _) with hd | hn
      · rw [hd]
        have hsame := toggleFill_cursor b
        obtain ⟨o, ho, hno⟩ := pixelUp_unsafe (b := (toggleFill b).1) (hsame.2.trans hy)
          (by rw [hsame.1]; exact hx)
        exact ⟨o, List.mem_append_right _ ho, hno⟩
      · rw [hn]
        exact pixelUp_unsafe hy hx
    obtain ⟨o, ho, hno⟩ := hfirst
    exact ⟨o, List.mem_append_left _ ho, hno⟩

end Members

/-- In every state on the way through the events the cursor is on the screen, and
everything shown so far is proper. -/
def Safe (b : ButtonProcessing) (events : List Event) : Prop :=
  ∀ pre, pre <+: events → ∀ b' tr, exec client b pre = some (b', tr) →
    OnScreen b' ∧ ∀ o ∈ tr, o.Proper

theorem safe_iff_throughout (b : ButtonProcessing) (events : List Event) : Safe b events ↔
    Throughout client (fun b' tr => OnScreen b' ∧ ∀ o ∈ tr, o.Proper) b events := Iff.rfl

theorem safe_iff_of_onScreen (events : List Event) (b : ButtonProcessing) (h : OnScreen b) :
    Safe b events ↔ (exec (client.when keepsBelowTop) b events).isSome := by
  rw [safe_iff_throughout]
  refine throughout_iff (fun _ _ hI => hI) ?_ ?_ ⟨h, by simp⟩
    (exec_isSome_of_total (fun _ _ => rfl) events b)
  · rintro b tr e b' seen ⟨hon, hproper⟩ hok hs
    have hsafe := handle_safe hon hok
    obtain ⟨rfl, rfl⟩ := Prod.mk.inj (Option.some.inj hs)
    refine ⟨hsafe.onScreen, fun o ho => ?_⟩
    rcases List.mem_append.mp ho with ho | ho
    · exact hproper o ho
    · exact hsafe.proper o ho
  · rintro b tr e b' seen - hbad hs hsafe
    obtain ⟨o, ho, hno⟩ := handle_unsafe hbad
    obtain ⟨rfl, rfl⟩ := Prod.mk.inj (Option.some.inj hs)
    exact hno (hsafe.2 o (List.mem_append_right _ ho))

/-- From the constructor on, a sequence of keys and records is safe exactly when it never
runs `PixelUp` on the top row to the right of the first column. -/
theorem client_safe_iff (events : List Event) :
    Safe constructed events ↔ (exec (client.when keepsBelowTop) constructed events).isSome :=
  safe_iff_of_onScreen events constructed ⟨by decide, by decide⟩

/-- Within the condition the commands keep the display of the module in order: the driver
touches only bytes of its frame buffer. -/
theorem probed_of_client (results : ℕ → ℤ) (block : Mem) (events : List Event)
    (b : ButtonProcessing) (tr : List Seen)
    (h : exec (client.when keepsBelowTop) constructed events = some (b, tr)) :
    Probed ((tr.filterMap Seen.userCall).foldl UserCall.run
      ⟨⟨results, []⟩, probeData block⟩) := by
  have hsafe : Safe constructed events := by
    rw [safe_iff_of_onScreen events constructed ⟨by decide, by decide⟩, h]
    rfl
  have hproper := (hsafe events (List.prefix_refl _) b tr (exec_of_when h)).2
  refine (probed_probe results block).foldl ?_
  intro c hc
  obtain ⟨o, ho, hoc⟩ := List.mem_filterMap.mp hc
  exact (hproper o ho).1 c hoc

/-- Right and up from the corner. -/
theorem client_unsafe : ¬Safe constructed [.key 27 91 67, .key 27 91 65] := by
  intro h
  have hrun : exec client constructed [.key 27 91 67, .key 27 91 65] =
      some (⟨true, false, false, 1, 255⟩, _) := rfl
  exact absurd (h _ (List.prefix_refl _) _ _ hrun).1.2 (by decide)

end LinuxOddsAndEnds.Oled.Client
