import AmxJit.Compiler.Compile
import AmxJit.Amx.Sweep

/-!
# The labels of a compiled buffer

* `compileInstr_labels`  the labels bound by the code of one instruction are its own;
* `labels_runtime`       the labels bound by the runtime, none of them twice
                         (`runtimeLabels_nodup`), none of them of an instruction
                         (`runtimeLabels_fixed`).
-/

namespace AmxJit
open X86

/-! ## labels -/

@[simp] theorem labels_asm (is : Code) : labels (asm is) = [] := labels_code is

@[simp] theorem labels_emit (i : Instr Cell Label) : labels (emit i) = [] := rfl

@[simp] theorem labels_label (l : Label) : labels (label l) = [l] := rfl

/-- no label twice, and only labels of the instruction at `cip` -/
def OwnLabels (cip : Word) (b : Buffer) : Prop :=
  (labels b).Nodup ∧ ∀ l ∈ labels b, ∃ n, l = .here cip n

section
variable (c : CompilerImpl) (r : AmxRef)

theorem OwnLabels.of_nil {cip : Word} {b : Buffer} (h : labels b = []) : OwnLabels cip b := by
  unfold OwnLabels
  rw [h]
  exact ⟨List.nodup_nil, by simp⟩

theorem intrinsics_labels (cip : Word) :
    ∀ e ∈ intrinsics cip, OwnLabels cip e.2 := by
  intro e he
  simp only [intrinsics, List.mem_cons, List.not_mem_nil, or_false] at he
  rcases he with rfl | rfl | rfl | rfl | rfl | rfl | rfl | rfl | rfl | rfl | rfl | rfl | rfl | rfl <;>
    simp [OwnLabels, floatcmp, clamp, min', max', minMax, labels_append, labels_code]

theorem emitIntrinsic_labels {name cip : Word} {b : Buffer}
    (h : emitIntrinsic r name cip = some b) : OwnLabels cip b := by
  obtain ⟨e, he, rfl⟩ := Option.map_eq_some_iff.mp h
  exact intrinsics_labels cip e (List.mem_of_find?_eq_some he)

theorem emitSysreqC_labels {cip index : Word} {b : Buffer}
    (h : emitSysreqC c r cip index = some b) : OwnLabels cip b := by
  unfold emitSysreqC at h
  dsimp only at h
  split at h
  · exact absurd h (by simp)
  · split at h
    · rename_i b' hb
      cases h
      exact emitIntrinsic_labels r hb
    · split at h <;> cases h <;> exact .of_nil (by simp [labels_append])

theorem emitSysreqD_labels {cip address : Word} {b : Buffer}
    (h : emitSysreqD r cip address = some b) : OwnLabels cip b := by
  unfold emitSysreqD at h
  dsimp only at h
  split at h
  · exact absurd h (by simp)
  · split at h
    · rename_i b' hb
      cases h
      exact emitIntrinsic_labels r hb
    · cases h
      exact .of_nil (by simp [labels_append])

theorem emitSwitch_labels {records : List CaseRecord} {b : Buffer}
    (h : emitSwitch records = some b) : labels b = [] := by
  obtain ⟨default, -, rfl⟩ := Option.map_eq_some_iff.mp h
  have hcases : labels (records.tail.flatMap emitCase) = [] := by
    induction records.tail with
    | nil => rfl
    | cons x xs ih => rw [List.flatMap_cons, labels_append, ih]; simp [emitCase, labels_append]
  unfold emitCases
  split <;> simp [labels_append, hcases]

theorem controlCode_labels {i : Instruction} {b : Buffer} (h : controlCode c r i = some b) :
    OwnLabels i.address b := by
  unfold controlCode at h
  dsimp only at h
  split at h
  · cases h
    exact .of_nil (by simp [emitJcc, labels_append])
  · split at h
    case h_11 => cases h; simp [OwnLabels, emitCmps, labels_append]
    case h_13 => cases h; simp [OwnLabels, emitBounds, emitHalt, labels_append]
    case h_15 => exact emitSysreqC_labels c r h
    case h_16 => exact emitSysreqD_labels r h
    case h_17 =>
      obtain ⟨records, -, h⟩ := Option.bind_eq_some_iff.mp h
      exact .of_nil (emitSwitch_labels h)
    case h_2 => split at h <;> cases h <;> exact .of_nil rfl
    all_goals
      cases h <;>
        exact .of_nil (by simp [emitRet, emitRetn, emitJzer, emitJnz, emitHalt, labels_append,
          labels])

theorem compileInstr_labels {i : Instruction} {b : Buffer} (h : compileInstr c r i = some b) :
    OwnLabels i.address b := by
  unfold compileInstr at h
  split at h
  · cases h
    exact .of_nil (labels_code _)
  · exact controlCode_labels c r h

@[simp] theorem labels_instrLabel (i : Instruction) :
    labels (instrLabel i) = [.cip i.address] := by
  unfold instrLabel
  split <;> rfl

/-- the labels of the code that only a compiler with `enableSleep` emits -/
def sleepLabel (l : Label) : List Label := if c.enableSleep then [l] else []

/-- the labels of the runtime, in the order of their binding -/
def runtimeLabels : List Label := List.flatten [
  [.ribStart, .exec, .nullData, .afterCall, .finish, .return', .stackHeapOverflow, .heapUnderflow,
    .stackUnderflow, .nativeNotFound, .publicNotFound],
  sleepLabel c .continueFromSleep, [.execHelper, .callReturn, .execExit],
  sleepLabel c .execContHelper, [.haltHelper, .haltExit], sleepLabel c .haltSleep,
  [.jumpLookup, .reverseJumpLookup, .jumpHelper, .invalidAddress, .sysreqCHelper, .sysreqCError],
  sleepLabel c .sysreqCSleepError, [.sysreqDHelper, .sysreqDError],
  sleepLabel c .sysreqDSleepError]

theorem labels_ite (p : Prop) [Decidable p] (b b' : Buffer) :
    labels (if p then b else b') = if p then labels b else labels b' := by
  split <;> rfl

theorem labels_emitExec : labels (emitExec c) =
    .exec :: .nullData :: .afterCall :: .finish :: .return' :: .stackHeapOverflow ::
      .heapUnderflow :: .stackUnderflow :: .nativeNotFound :: .publicNotFound ::
      sleepLabel c .continueFromSleep := by
  unfold emitExec execReject sleepLabel
  simp only [labels_append, labels_asm, labels_emit, labels_label, labels_ite, labels]
  cases c.enableSleep <;> rfl

theorem labels_emitExecHelper :
    labels (emitExecHelper c) = [.execHelper, .callReturn, .execExit] := by
  unfold emitExecHelper
  simp only [labels_append, labels_asm, labels_emit, labels_label, labels_ite, labels]
  cases c.enableSleep <;> rfl

theorem labels_emitExecContHelper : labels (emitExecContHelper c) = [.execContHelper] := by
  unfold emitExecContHelper
  simp only [labels_append, labels_asm, labels_emit, labels_label, List.append_nil]

theorem labels_emitHaltHelper :
    labels (emitHaltHelper c) = .haltHelper :: .haltExit :: sleepLabel c .haltSleep := by
  unfold emitHaltHelper sleepLabel
  simp only [labels_append, labels_asm, labels_emit, labels_label, labels_ite, labels]
  cases c.enableSleep <;> rfl

theorem labels_sysreqEnter (l : Label) (name : String) :
    labels (sysreqEnter c l name) = [l] := by
  unfold sysreqEnter
  simp only [labels_append, labels_asm, labels_emit, labels_label, labels_ite, labels, ite_self,
    List.append_nil]

theorem labels_sysreqLeave (error sleepError : Label) :
    labels (sysreqLeave c error sleepError) = error :: sleepLabel c sleepError := by
  unfold sysreqLeave sleepLabel
  simp only [labels_append, labels_asm, labels_emit, labels_label, labels_ite, labels]
  cases c.enableSleep <;> rfl

theorem labels_runtime (n : Nat) : labels (emitRuntime c n) = runtimeLabels c := by
  unfold emitRuntime emitSysreqCHelper emitSysreqDHelper
  simp only [labels_append, labels_emitExec, labels_emitExecHelper, labels_emitExecContHelper,
    labels_emitHaltHelper, labels_sysreqEnter, labels_sysreqLeave, labels_asm, labels_emit, labels_ite]
  unfold runtimeLabels sleepLabel
  cases c.enableSleep <;> rfl

theorem runtimeLabels_nodup : (runtimeLabels c).Nodup := by
  refine List.Nodup.of_map Label.ctorIdx ?_
  unfold runtimeLabels sleepLabel
  cases c.enableSleep <;> decide +kernel

theorem runtimeLabels_fixed (a : Word) (n : Nat) :
    .cip a ∉ runtimeLabels c ∧ .here a n ∉ runtimeLabels c := by
  unfold runtimeLabels sleepLabel
  cases c.enableSleep <;> simp

end

end AmxJit
