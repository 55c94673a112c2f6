import LinuxOddsAndEnds.Foundation.Throughout
import LinuxOddsAndEnds.Rpi4.DmaMoc

/-!
# Mappings over many writes

Each write maps both buffers for the device and unmaps them at its end. A write that finds
no descriptor or cannot submit it leaves earlier, and no later write makes up for that.
-/

namespace LinuxOddsAndEnds.Rpi4.Dma

open Foundation

/-- Writes, each run whole. -/
def dmaDevice : Machine DmaPrivateData Call Outcome := fun d c =>
  some ((dmaWrite d c).1, [(dmaWrite d c).2])

/-- Nothing is mapped between calls, and failing calls say so. -/
structure Paired (tr : List Outcome) : Prop where
  repaid : Repaid (tr.flatMap Outcome.mappings)
  answered : ∀ o ∈ tr, o.failed = true → ∃ r, o.ret = some r ∧ r < 0

/-- Nothing was mapped, or all is submitted. -/
def unmaps (size : BitVec 32) (c : Call) : Bool :=
  decide (c.readable < min c.count.toNat size.toNat) || (c.descriptor && c.submitted)

variable {d d' : DmaPrivateData} {c : Call} {tr seen : List Outcome} {size : BitVec 32}

theorem dmaWrite_size (d : DmaPrivateData) (c : Call) :
    (dmaWrite d c).1.kmallocMmapBufferSize = d.kmallocMmapBufferSize := by
  unfold dmaWrite
  dsimp only
  split_ifs <;> rfl

theorem paired_nil : Paired [] := ⟨repaid_nil, by simp⟩

theorem Paired.concat {o : Outcome} (h : Paired tr) (hrepaid : Repaid o.mappings)
    (ho : o.failed = true → ∃ r, o.ret = some r ∧ r < 0) : Paired (tr ++ [o]) := by
  refine ⟨?_, fun o' ho' => ?_⟩
  · rw [List.flatMap_append, List.flatMap_singleton]
    exact h.repaid.append hrepaid
  · rcases List.mem_append.mp ho' with ho' | ho'
    · exact h.answered o' ho'
    · rw [List.mem_singleton.mp ho']
      exact ho

theorem Paired.dmaWrite (h : Paired tr) (hc : unmaps d.kmallocMmapBufferSize c = true) :
    Paired (tr ++ [(dmaWrite d c).2]) := by
  by_cases hread : echoLength d c ≤ c.readable
  · have hgood : c.descriptor = true ∧ c.submitted = true := by
      have hnot : ¬c.readable < min c.count.toNat d.kmallocMmapBufferSize.toNat :=
        not_lt.mpr hread
      simpa [unmaps, hnot] using hc
    rw [dmaWrite_of_submitted hread hgood.1 hgood.2]
    exact h.concat (repaid_two ..) nofun
  · rw [dmaWrite_of_fault hread]
    exact h.concat repaid_nil fun _ => ⟨-einval, rfl, by decide⟩

theorem Paired.not_dmaWrite (h : Paired tr) (hc : unmaps d.kmallocMmapBufferSize c = false) :
    ¬Paired (tr ++ [(Dma.dmaWrite d c).2]) := by
  rw [unmaps, Bool.or_eq_false_iff, decide_eq_false_iff_not, not_lt, Bool.and_eq_false_iff] at hc
  obtain ⟨hread, hbad⟩ := hc
  rw [dmaWrite_of_unsubmitted hread hbad]
  intro hpaired
  have hcount := hpaired.repaid.2 (c.src (clamped d c))
  rw [List.flatMap_append, List.flatMap_singleton, List.count_append, List.count_append,
    h.repaid.2] at hcount
  simp at hcount

/-- Every mapping is unmapped throughout a run if and only if each of its writes either fails
to copy or is submitted. -/
theorem dma_mappings_paired_iff (d : DmaPrivateData) (cs : List Call) :
    Throughout dmaDevice (fun _ => Paired) d cs ↔
      ∀ c ∈ cs, unmaps d.kmallocMmapBufferSize c = true := by
  have hrun : (exec dmaDevice d cs).isSome := exec_isSome_of_total (fun _ _ => rfl) cs d
  rw [← exec_when_isSome_iff cs d hrun]
  refine throughout_iff
    (I := fun s tr => s.kmallocMmapBufferSize = d.kmallocMmapBufferSize ∧ Paired tr)
    (fun _ _ h => h.2) ?_ ?_ ⟨rfl, paired_nil⟩ hrun
  · rintro s tr c s' seen ⟨hsize, h⟩ hc hs
    obtain ⟨rfl, rfl⟩ := Prod.mk.inj (Option.some.inj hs)
    exact ⟨(dmaWrite_size s c).trans hsize, h.dmaWrite (hsize ▸ hc)⟩
  · rintro s tr c s' seen ⟨hsize, h⟩ hc hs
    obtain ⟨rfl, rfl⟩ := Prod.mk.inj (Option.some.inj hs)
    exact h.not_dmaWrite (hsize ▸ hc)

/-- A submission error leaves both buffers mapped. -/
theorem mapped_after_submit_error : ¬Throughout dmaDevice (fun _ => Paired) (dmaProbe (some 4096))
    [⟨fun _ => 65, 4, 4, 0x1000, 0x2000, true, false⟩] := by
  intro h
  have hlast := h.last rfl
  have hcount := hlast.repaid.2 ⟨0x1000, 4, .toDevice⟩
  exact absurd hcount (by decide)

end LinuxOddsAndEnds.Rpi4.Dma
