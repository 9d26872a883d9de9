import AmxJit.X86.Effect
import AmxJit.X86.Region

/-!
# What an instruction leaves alone

* `step_df`          no instruction changes the direction flag;
* `Instr.stores i`   `i` may write to memory: otherwise it leaves the memory as it was (`exec_frame`);
* `runSeq_mem`       so does a straight line of such instructions.
-/

namespace X86
variable {C V L : Type}

def Opnd.stores : Opnd C → Bool
  | .mem _ => true
  | _ => false

namespace Instr

def stores : Instr C L → Bool
  | .mov d _ | .add d _ | .sub d _ | .and d _ | .or d _ | .xor d _ | .inc d | .dec d | .pop d =>
    d.stores
  | .xchg a b => a.stores || b.stores
  | .mov8 .. | .mov16 .. | .push _ | .repMovs _ | .repStosd | .call _ | .callReg _ | .callOp _
  | .callAbs _ => true
  | .fpu op _ => op = .fstp
  | _ => false

end Instr

section
variable {s t : State V} {v : Word} [Cells C V] {o : Opnd C} {y : Option Word}
  {f : Word → Word → Word} {g : Flags → Word → Word → Flags}

theorem set_flags (d : Reg) (v : Word) : (s.set d v).flags = s.flags := by
  cases d <;> rfl

theorem set8_flags (d : Reg8) (x : Byte) : (s.set8 d x).flags = s.flags := by
  cases d <;> rfl

theorem set8_mem (d : Reg8) (x : Byte) : (s.set8 d x).mem = s.mem := by
  cases d <;> rfl

theorem store_flags (h : s.store o v = some t) : t.flags = s.flags := by
  rcases store_cases h with ⟨d, rfl, rfl⟩ | ⟨m, rfl⟩ | ⟨c, -, rfl⟩
  · exact set_flags d v
  · rfl
  · rfl

theorem store_mem' (ho : o.stores = false) (h : s.store o v = some t) : t.mem = s.mem := by
  cases o with
  | reg d =>
    cases h
    exact State.set_mem s d v
  | imm w => exact absurd h (by simp [State.store])
  | mem p => exact absurd ho (by simp [Opnd.stores])
  | var c =>
    cases h
    rfl
  | field b c =>
    have h' : (if s.get b = Cells.ptr c s.vars then
      some { s with vars := Cells.set c v s.vars } else none) = some t := h
    split at h'
    · cases h'
      rfl
    · exact absurd h' (by simp)

/-- an operation whose flags keep the direction flag -/
theorem alu_frame (h : s.alu o y f g = some t) (hg : ∀ fl x z, (g fl x z).df = fl.df) :
    t.flags.df = s.flags.df ∧ (o.stores = false → t.mem = s.mem) := by
  obtain ⟨x, -, h⟩ := Option.bind_eq_some_iff.mp h
  obtain ⟨z, -, h⟩ := Option.bind_eq_some_iff.mp h
  obtain ⟨u, hu, rfl⟩ := Option.map_eq_some_iff.mp h
  refine ⟨hg _ _ _, fun ho => ?_⟩
  exact (store_mem' ho hu : u.mem = s.mem)

theorem shift_df (fl : Flags) (n : Nat) (r : Word) (c ovf : Bool) :
    (fl.shift n r c ovf).df = fl.df := by
  unfold Flags.shift
  split <;> rfl

theorem repMovs_flags (w n : Nat) : (State.repMovs w n s).flags = s.flags := by
  induction n generalizing s with
  | zero => rfl
  | succ n ih => exact ih (s := s.movs w)

theorem repStosd_flags (n : Nat) : (State.repStosd n s).flags = s.flags := by
  induction n generalizing s with
  | zero => rfl
  | succ n ih => exact ih (s := s.stosd)

theorem repeCmpsb_frame (n : Nat) :
    (State.repeCmpsb n s).flags.df = s.flags.df ∧ (State.repeCmpsb n s).mem = s.mem := by
  induction n generalizing s with
  | zero => exact ⟨rfl, rfl⟩
  | succ n ih =>
    unfold State.repeCmpsb
    split
    · exact ih (s := s.cmpsb)
    · exact ⟨rfl, rfl⟩

end

section
variable {s t : State V} [Cells C V] {addr : L → Option Word} {i : Instr C L}

/-- the direction flag, and the memory of an instruction that does not store -/
theorem exec_frame (h : exec addr i s = some t) :
    t.flags.df = s.flags.df ∧ (i.stores = false → t.mem = s.mem) := by
  cases i
  case mov d o =>
    obtain ⟨x, -, h⟩ := Option.bind_eq_some_iff.mp h
    exact ⟨congrArg Flags.df (store_flags h), fun hi => store_mem' hi h⟩
  case leaLabel d l =>
    obtain ⟨x, -, rfl⟩ := Option.map_eq_some_iff.mp h
    exact ⟨congrArg Flags.df (set_flags d x), fun _ => State.set_mem s d x⟩
  case push o =>
    obtain ⟨x, -, rfl⟩ := Option.map_eq_some_iff.mp h
    exact ⟨rfl, fun hi => absurd hi (by simp [Instr.stores])⟩
  case pop d =>
    have hflags := store_flags (s := { s with esp := s.esp + 4 }) h
    exact ⟨congrArg Flags.df hflags, fun hi => store_mem' (s := { s with esp := s.esp + 4 }) hi h⟩
  case cmp a b =>
    obtain ⟨x, -, h⟩ := Option.bind_eq_some_iff.mp h
    obtain ⟨y, -, rfl⟩ := Option.map_eq_some_iff.mp h
    exact ⟨rfl, fun _ => rfl⟩
  case test a b =>
    obtain ⟨x, -, h⟩ := Option.bind_eq_some_iff.mp h
    obtain ⟨y, -, rfl⟩ := Option.map_eq_some_iff.mp h
    exact ⟨rfl, fun _ => rfl⟩
  case xchg a b =>
    obtain ⟨x, -, h⟩ := Option.bind_eq_some_iff.mp h
    obtain ⟨y, -, h⟩ := Option.bind_eq_some_iff.mp h
    obtain ⟨u, hu, h⟩ := Option.bind_eq_some_iff.mp h
    refine ⟨congrArg Flags.df ((store_flags h).trans (store_flags hu)), fun hi => ?_⟩
    obtain ⟨ha, hb⟩ := Bool.or_eq_false_iff.mp hi
    exact (store_mem' hb h).trans (store_mem' ha hu)
  case xchg8 a b =>
    cases h
    rw [set8_flags, set8_flags, set8_mem, set8_mem]
    exact ⟨rfl, fun _ => rfl⟩
  case setcc c d =>
    cases h
    rw [set8_flags, set8_mem]
    exact ⟨rfl, fun _ => rfl⟩
  case div d =>
    obtain ⟨x, y, rfl⟩ := doDiv_cases h
    exact ⟨rfl, fun _ => rfl⟩
  case idiv d =>
    obtain ⟨x, y, rfl⟩ := doIdiv_cases h
    exact ⟨rfl, fun _ => rfl⟩
  case repMovs w =>
    cases h
    exact ⟨congrArg Flags.df (repMovs_flags w _), fun hi => absurd hi (by simp [Instr.stores])⟩
  case repStosd =>
    cases h
    exact ⟨congrArg Flags.df (repStosd_flags _), fun hi => absurd hi (by simp [Instr.stores])⟩
  case repeCmpsb =>
    cases h
    obtain ⟨h1, h2⟩ := repeCmpsb_frame (s := s) s.ecx.toNat
    exact ⟨h1, fun _ => h2⟩
  case fpu op p =>
    cases h
    exact ⟨rfl, fun hi => if_neg (of_decide_eq_false hi)⟩
  case shl d n =>
    cases h
    exact ⟨shift_df .., fun _ => State.set_mem ..⟩
  case shr d n =>
    cases h
    exact ⟨shift_df .., fun _ => State.set_mem ..⟩
  case sar d n =>
    cases h
    exact ⟨shift_df .., fun _ => State.set_mem ..⟩
  case ror d n =>
    cases h
    refine ⟨?_, fun _ => State.set_mem ..⟩
    show (if _ then s.flags else _).df = _
    split <;> rfl
  case neg d =>
    cases h
    exact ⟨rfl, fun _ => State.set_mem ..⟩
  case imul d r v =>
    cases h
    exact ⟨rfl, fun _ => State.set_mem ..⟩
  case add d o =>
    simp only [exec] at h
    exact alu_frame h fun _ _ _ => rfl
  case sub d o =>
    simp only [exec] at h
    exact alu_frame h fun _ _ _ => rfl
  case and d o =>
    simp only [exec] at h
    exact alu_frame h fun _ _ _ => rfl
  case or d o =>
    simp only [exec] at h
    exact alu_frame h fun _ _ _ => rfl
  case xor d o =>
    simp only [exec] at h
    exact alu_frame h fun _ _ _ => rfl
  case inc d =>
    simp only [exec] at h
    exact alu_frame h fun _ _ _ => rfl
  case dec d =>
    simp only [exec] at h
    exact alu_frame h fun _ _ _ => rfl
  all_goals
    cases h <;>
      first
      | exact ⟨rfl, fun _ => rfl⟩
      | exact ⟨congrArg Flags.df (set_flags _ _), fun _ => State.set_mem ..⟩
      | exact ⟨rfl, fun hi => absurd hi (by simp [Instr.stores])⟩

/-- no instruction changes the direction flag -/
theorem step_df {n : Word} (h : step addr i n s = some t) : t.flags.df = s.flags.df := by
  rcases step_cases h with ⟨u, hu, rfl⟩ | ⟨a, rfl⟩ | ⟨-, e, m, a, rfl⟩
  · exact (exec_frame hu).1
  · rfl
  · rfl

/-- instructions that do not store -/
theorem runSeq_mem {is : List (Instr C L)} (his : is.any Instr.stores = false)
    (h : runSeq addr is s = some t) : t.mem = s.mem := by
  induction is generalizing s with
  | nil =>
    cases h
    rfl
  | cons i is ih =>
    obtain ⟨hi, his⟩ := Bool.or_eq_false_iff.mp (List.any_cons.symm.trans his)
    rw [runSeq_cons] at h
    obtain ⟨u, hu, h⟩ := Option.bind_eq_some_iff.mp h
    exact (ih his h).trans ((exec_frame hu).2 hi)

end

end X86
