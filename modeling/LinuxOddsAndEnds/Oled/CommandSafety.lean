import LinuxOddsAndEnds.Oled.Painting

/-!
# What a command can damage

Rectangles and lines are clipped, so no coordinates lead them out of the frame. The
pixel command computes its index from the raw bytes; off the screen it runs past the
buffer or lands on a pixel of another page, and its effect is determined here exactly.
The block that `show` hands to the bus is the whole buffer and is accounted for with
the transfers.
-/

namespace LinuxOddsAndEnds.Oled

open Foundation

/-- What a write must not do: leave the frame, or draw when its coordinates are off the
screen. -/
structure CommandSafe (o : EssSsd1305Oled) (copyFromUser : Bool) (count : SizeT) (buff : Mem) :
    Prop where
  indices : ∃ new, (essOledWrite copyFromUser (fun _ => buff) count o).2.oledData.touched =
    o.oledData.touched ++ new ∧ ∀ i ∈ new, InFrame o.oledData i
  offScreen : count = 3#64 ∨ count = 4#64 ∨ count = 5#64 →
    o.oledData.width ≤ buff 1 ∨ o.oledData.height ≤ buff 2 → ∀ p ∈ screen o.oledData,
      pixel (essOledWrite copyFromUser (fun _ => buff) count o).2.oledData p = pixel o.oledData p

/-- The pixel command is on the screen, or its index falls in the frame and on a pixel that
is lit already or not visible. -/
def PixelHarmless (d : Ssd1305Data) (copyFromUser : Bool) (count : SizeT) (buff : Mem) : Prop :=
  copyFromUser = true → count = 3#64 → buff 0 = cmdSetPixel →
    d.width ≤ buff 1 ∨ d.height ≤ buff 2 →
    byteIndex d (buff 1) (buff 2) < d.pages.toNat * d.width.toNat ∧
      ((byteIndex d (buff 1) (buff 2) % d.width.toNat,
          byteIndex d (buff 1) (buff 2) / d.width.toNat * 8 + (buff 2).toNat % 8) ∉ screen d ∨
        pixel d (byteIndex d (buff 1) (buff 2) % d.width.toNat,
          byteIndex d (buff 1) (buff 2) / d.width.toNat * 8 + (buff 2).toNat % 8) = true)

section Safety

variable {d d' : Ssd1305Data} {st : Option (Stroke (ℕ × ℕ) Bool)}

theorem Follows.touched (h : Follows d d' st) :
    ∃ new, d'.touched = d.touched ++ new ∧ ∀ i ∈ new, InFrame d i := by
  cases st with
  | none =>
    obtain rfl : d' = d := h
    exact ⟨[], (List.append_nil _).symm, fun i hi => absurd hi List.not_mem_nil⟩
  | some s =>
    obtain ⟨shape, hp, -⟩ := h
    exact hp.touched

theorem Follows.unchanged (h : Follows d d' st)
    (hst : ∀ s, st = some s → ∀ p ∈ screen d, p ∉ s.shape) {p : ℕ × ℕ} (hp : p ∈ screen d) :
    pixel d' p = pixel d p := by
  cases st with
  | none =>
    obtain rfl : d' = d := h
    rfl
  | some s =>
    obtain ⟨shape, hpaints, hshape⟩ := h
    exact hpaints.outside p (fun hx => hst s rfl p hp ((hshape p hp).mpr hx)) hp.1

theorem notMem_box_of_offScreen {x y : Byte} (hoff : d.width ≤ x ∨ d.height ≤ y) {w h : ℕ}
    {p : ℕ × ℕ} (hp : p ∈ screen d) : p ∉ box x.toNat y.toNat w h := by
  simp only [screen, Set.mem_ofPred_eq] at hp
  rw [BitVec.le_def, BitVec.le_def] at hoff
  rw [mem_box]
  omega

theorem writeStroke_offScreen {count : SizeT} {buff : Mem}
    (hcount : count = 3#64 ∨ count = 4#64 ∨ count = 5#64)
    (hoff : d.width ≤ buff 1 ∨ d.height ≤ buff 2) {s : Stroke (ℕ × ℕ) Bool}
    (hs : writeStroke (screen d) count buff = some s) {p : ℕ × ℕ} (hp : p ∈ screen d) :
    p ∉ s.shape := by
  have hbox : ∀ w h, p ∉ box (buff 1).toNat (buff 2).toNat w h ∩ screen d := fun w h hx =>
    notMem_box_of_offScreen hoff hp hx.1
  have hpoint : p ∉ ({((buff 1).toNat, (buff 2).toNat)} ∩ screen d : Set (ℕ × ℕ)) := by
    rintro ⟨rfl, hx, hy⟩
    rw [BitVec.le_def, BitVec.le_def] at hoff
    dsimp only at hx hy
    omega
  rcases hcount with rfl | rfl | rfl
  · change stroke3 (screen d) buff = some s at hs
    unfold stroke3 at hs
    split_ifs at hs
    obtain rfl := Option.some.inj hs
    exact hpoint
  · change stroke4 (screen d) buff = some s at hs
    unfold stroke4 at hs
    split_ifs at hs <;> obtain rfl := Option.some.inj hs
    · exact hbox _ _
    · exact hbox _ _
  · change stroke5 (screen d) buff = some s at hs
    unfold stroke5 at hs
    split_ifs at hs <;> obtain rfl := Option.some.inj hs
    · exact hbox _ _
    · exact hbox _ _

variable {o : EssSsd1305Oled} {copyFromUser : Bool} {count : SizeT} {buff : Mem}

theorem commandSafe_of_onScreen (hg : Geometry o.oledData)
    (hpix : copyFromUser = true → PixelOnScreen o.oledData count buff) :
    CommandSafe o copyFromUser count buff := by
  have hf := essOledWrite_follows hg copyFromUser count buff hpix
  refine ⟨hf.touched, fun hcount hoff p hp => hf.unchanged (fun s hs p hp => ?_) hp⟩
  cases copyFromUser with
  | false => exact absurd hs (by simp)
  | true => exact writeStroke_offScreen hcount hoff hs hp

theorem essOledWrite_setPixel (hcode : buff 0 = cmdSetPixel) :
    (essOledWrite true (fun _ => buff) 3#64 o).2.oledData =
      setPixel o.oledData (buff 1) (buff 2) 1#8 := by
  have hrun : (essOledWrite true (fun _ => buff) 3#64 o).2 = write3 (fun _ => buff) o := rfl
  rw [hrun, write3, if_pos hcode, oledData_drawAndShow]

theorem commandSafe_setPixel_iff (hcode : buff 0 = cmdSetPixel)
    (hoff : o.oledData.width ≤ buff 1 ∨ o.oledData.height ≤ buff 2) :
    CommandSafe o true 3#64 buff ↔ PixelHarmless o.oledData true 3#64 buff := by
  constructor
  · rintro ⟨hidx, hunch⟩ - - - -
    rw [essOledWrite_setPixel hcode] at hidx
    obtain ⟨new, hnew, hin⟩ := hidx
    have hlt : byteIndex o.oledData (buff 1) (buff 2) <
        o.oledData.pages.toNat * o.oledData.width.toNat := by
      have he := List.append_cancel_left hnew
      exact (hin _ (by rw [← he]; exact List.mem_singleton_self _)).2
    refine ⟨hlt, ?_⟩
    by_contra hvis
    simp only [not_or, not_not] at hvis
    have hp := setPixel_paints_alias hlt 1#8
    have hset := hp.inside _ rfl hvis.1.1
    have hold := hunch (Or.inl rfl) hoff _ hvis.1
    rw [essOledWrite_setPixel hcode, hset] at hold
    exact hvis.2 hold.symm
  · intro h
    obtain ⟨hlt, hvis⟩ := h rfl rfl hcode hoff
    have hp := setPixel_paints_alias hlt 1#8
    refine ⟨?_, fun _ _ p hps => ?_⟩
    · rw [essOledWrite_setPixel hcode]
      exact hp.touched
    · rw [essOledWrite_setPixel hcode]
      by_cases hmem : p ∈ ({(byteIndex o.oledData (buff 1) (buff 2) % o.oledData.width.toNat,
          byteIndex o.oledData (buff 1) (buff 2) / o.oledData.width.toNat * 8 +
            (buff 2).toNat % 8)} : Set (ℕ × ℕ))
      · rw [hp.inside p hmem hps.1]
        obtain rfl := hmem
        rcases hvis with hout | hlit
        · exact absurd hps hout
        · exact hlit.symm
      · exact hp.outside p hmem hps.1

end Safety

/-- A write keeps to the frame and draws nothing off the screen exactly when it is not a
harmful pixel command. -/
theorem command_safe_iff (o : EssSsd1305Oled) (hg : Geometry o.oledData) (copyFromUser : Bool)
    (count : SizeT) (buff : Mem) :
    CommandSafe o copyFromUser count buff ↔ PixelHarmless o.oledData copyFromUser count buff := by
  by_cases hcase : copyFromUser = true ∧ count = 3#64 ∧ buff 0 = cmdSetPixel ∧
      (o.oledData.width ≤ buff 1 ∨ o.oledData.height ≤ buff 2)
  · obtain ⟨rfl, rfl, hcode, hoff⟩ := hcase
    exact commandSafe_setPixel_iff hcode hoff
  · constructor
    · exact fun _ hcopy hcount hcode hoff => absurd ⟨hcopy, hcount, hcode, hoff⟩ hcase
    · intro _
      refine commandSafe_of_onScreen hg fun hcopy hcount hcode => ?_
      by_contra hout
      refine hcase ⟨hcopy, hcount, hcode, ?_⟩
      rw [← BitVec.not_lt, ← BitVec.not_lt]
      tauto

def blankDisplay : EssSsd1305Oled := ⟨⟨fun _ => 0, []⟩, probeData fun _ => 0⟩

theorem command_safe_rect :
    CommandSafe blankDisplay true 5#64 (ofBytes [0x09, 120, 60, 255, 255]) :=
  (command_safe_iff blankDisplay rfl true 5#64 (ofBytes [0x09, 120, 60, 255, 255])).mpr
    fun _ hcount => absurd hcount (by decide)

/-- Column 200 lights a pixel of the next page, and row 255 writes behind the buffer. -/
theorem pixel_command_unsafe :
    ¬CommandSafe blankDisplay true 3#64 (ofBytes [0x05, 200, 0]) ∧
      ¬CommandSafe blankDisplay true 3#64 (ofBytes [0x05, 0, 255]) ∧
      (essOledWrite true (fun _ => ofBytes [0x05, 0, 255]) 3#64 blankDisplay).2.oledData.touched =
        [3969] := by
  refine ⟨?_, ?_, ?_⟩
  · intro h
    obtain ⟨-, hvis⟩ := (commandSafe_setPixel_iff rfl (by decide)).mp h rfl rfl rfl (by decide)
    rcases hvis with hout | hlit
    · exact hout ⟨by decide, by decide⟩
    · exact absurd hlit (by decide)
  · intro h
    obtain ⟨hlt, -⟩ := (commandSafe_setPixel_iff rfl (by decide)).mp h rfl rfl rfl (by decide)
    exact absurd hlt (by decide)
  · rw [essOledWrite_setPixel rfl]
    rfl

end LinuxOddsAndEnds.Oled
