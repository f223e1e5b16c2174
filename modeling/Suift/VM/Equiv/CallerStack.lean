import Suift.VM.Equiv.Rollback

/-!
# The caller stack

Access to confidential data is decided on the caller stack, which is put together from the outside in:
each of the five ways to open a frame hands a longer stack to `EVMInterpreter.Run`, which sets the old one
back when it returns.

* `Active.callerStack_eq`: at every moment the stack is that of the open frames.
* `callerStack_exact`: a precompile is run with the stack of the frames that are open when it is called, and
  its own address.

In the source the stack grows by `append`, which may overwrite what lies behind the end of a stack in the
same array.  The stacks of the open frames all end before that, and no other stack is read again.
-/

namespace Suift

namespace EVMConfig

variable {S σ : Type} {E : ConfidentialStoreEngine σ} {H : EVMConfig S E}

/-- Every frame hands the stack back as it was. -/
theorem frameRelation_callerStack :
    H.FrameRelation fun evm evm' => evm'.callerStack = evm.callerStack where
  stateDB _ _ := rfl
  trans h h' := h'.trans h
  runSuave p addr m input gas evm := by
    unfold runSuave
    dsimp only
    split
    · rfl
    · rfl
    · rfl
  interpret _ _ _ _ _ _ _ := rfl

variable {kind : CallKind} {args : CallArgs E} {evm : EVM S} {p : SuavePrecompile}
  {root code body next : Code S E} {origin self : Address} {start : EVM S} {frames : List Address}

/-- A frame that has returned leaves the stack that its caller had. -/
theorem callerStack_enter (frame : Frame E) (body : Code S E) (self : Address) (evm : EVM S) :
    (H.enter frame self (H.exec body) evm).2.callerStack = evm.callerStack :=
  frameRelation_callerStack.enter (frameRelation_callerStack.exec body) frame self evm

/-- The stack is that of the open frames, at every moment. -/
theorem Active.callerStack_eq (h : H.Active root origin start frames code self evm) :
    evm.callerStack = start.callerStack ++ frames.map some := by
  induction h with
  | root => exact (List.append_nil _).symm
  | write _ _ ih => exact ih
  | @enter frames frame body next self contract evm evm₁ _ _ hstarted ih =>
    rw [(of_started hstarted).1, ih, List.map_append, List.append_assoc]
    rfl
  | @leave frames frame body next self evm _ _ _ ih =>
    rw [callerStack_enter]
    exact ih

/-- A precompile is run with the stack of the open frames and its own address. -/
theorem Active.ranSuave (h : H.Active root origin start frames (.enter (.call kind args) body next) self evm)
    (hempty : start.callerStack = []) (hp : H.RunsSuave kind args self evm p) :
    H.RanSuave p ((frames ++ [args.addr]).map some) args evm
      (H.enter (.call kind args) self (H.exec body) evm) := by
  have hran := ranSuave_enter hp (H.exec body)
  rw [h.callerStack_eq, hempty, List.nil_append] at hran
  rw [List.map_append]
  exact hran

/-- A SUAVE precompile is found at its own address only. -/
theorem RunsSuave.address_eq (h : H.RunsSuave kind args self evm p) : p.address = args.addr := by
  have hprecompile := h.precompile
  unfold EVMConfig.precompile at hprecompile
  split at hprecompile
  · rename_i q hq
    obtain rfl := Sum.inl.inj (Option.some.inj hprecompile)
    split_ifs at hq
    simpa using List.find?_some hq
  · obtain ⟨q, -, hq⟩ := Option.map_eq_some_iff.mp hprecompile
    cases hq

/-- **The caller stack.**  An EVM starts with an empty one.  Every call of a precompile runs it with the
code addresses of the open frames and its own address: what the frame returns and the store that it leaves
are those of the runtime with that stack.  Every precompile that was run since the start was called at such
a moment, and every frame that returns hands back the stack that it has found. -/
theorem callerStack_exact (root : Code S E) (origin : Address) {start : EVM S}
    (hempty : start.callerStack = []) :
    (∀ frames kind args body next self evm p,
      H.Active root origin start frames (.enter (.call kind args) body next) self evm →
        H.RunsSuave kind args self evm p →
          H.RanSuave p ((frames ++ [args.addr]).map some) args evm
            (H.enter (.call kind args) self (H.exec body) evm)) ∧
    (∀ run ∈ (H.exec root origin start).2.runs.drop start.runs.length,
      ∃ frames kind args body next self evm,
        H.CalledAt root origin start run frames kind args body next self evm ∧
          args.addr = run.precompile.address ∧
          run.callerStack = (frames ++ [run.precompile.address]).map some) ∧
    ∀ frames frame body next self evm,
      H.Active root origin start frames (.enter frame body next) self evm →
        evm.callerStack = frames.map some ∧
          (H.enter frame self (H.exec body) evm).2.callerStack = evm.callerStack := by
  refine ⟨?_, ?_, ?_⟩
  · intro frames kind args body next self evm p hactive hp
    exact hactive.ranSuave hempty hp
  · intro run hrun
    have hroot : H.Active root origin start [] root origin start := .root
    obtain ⟨new, hnew, hcalled⟩ := hroot.exists_calledAt
    rw [hnew, List.drop_left] at hrun
    obtain ⟨frames, kind, args, body, next, self, evm, hcall⟩ := hcalled run hrun
    have haddr := hcall.suave.address_eq
    have hran := (hcall.active.ranSuave hempty hcall.suave).runs
    rw [hcall.runs] at hran
    have hrecord := List.singleton_inj.mp (List.append_cancel_left hran)
    refine ⟨frames, kind, args, body, next, self, evm, hcall, haddr.symm, ?_⟩
    rw [haddr]
    exact congrArg PrecompileRun.callerStack hrecord
  · intro frames frame body next self evm hactive
    have hstack := hactive.callerStack_eq
    rw [hempty] at hstack
    exact ⟨hstack, callerStack_enter frame body self evm⟩

end EVMConfig

namespace Rollback

open LocalConfidentialStore EVMConfig

/-- The contract `0xa` calls `0xb`, which stores a value and reverts. -/
def nestedCode : Code ℕ (mockConfig.engine backend) :=
  .enter (callOf 0xa []) survivingCode (.stop ⟨[], 0, none⟩)

/-- Where the contract `0xb` is about to call `confidentialStore`. -/
def storingMoment : EVM ℕ :=
  { mockStart with stateDB := 1, depth := 2, callerStack := [some 0xa, some 0xb] }

theorem active_storingMoment :
    mockEvm.Active nestedCode 0x1 mockStart [0xa, 0xb]
      (.enter (callOf confStoreAddress [7]) (.stop ⟨[], 0, none⟩) (.stop ⟨[], 0, some .executionReverted⟩))
      0xb storingMoment := by
  have hroot : mockEvm.Active nestedCode 0x1 mockStart [] nestedCode 0x1 mockStart := .root
  have hcalled : mockEvm.Active nestedCode 0x1 mockStart [0xa] survivingCode 0xa
      (inside 0xa false mockStart) := hroot.enter rfl rfl
  have hstoring : mockEvm.Active nestedCode 0x1 mockStart [0xa, 0xb] storingCode 0xb
      (inside 0xb false (inside 0xa false mockStart)) := hcalled.enter rfl rfl
  exact hstoring.write rfl

theorem callerStack_exact_nestedCode :
    mockStart.callerStack = [] ∧
      (mockEvm.exec nestedCode 0x1 mockStart).2.runs.map PrecompileRun.callerStack =
        [[some 0xa, some 0xb, some confStoreAddress]] ∧
      mockEvm.RanSuave .confidentialStore [some 0xa, some 0xb, some confStoreAddress]
        ⟨confStoreAddress, [7], 1000, 0, mockMoment⟩ storingMoment
        (mockEvm.enter (callOf confStoreAddress [7]) 0xb (mockEvm.exec (.stop ⟨[], 0, none⟩))
          storingMoment) := by
  have hp : mockEvm.RunsSuave .call ⟨confStoreAddress, [7], 1000, 0, mockMoment⟩ 0xb storingMoment
      .confidentialStore := ⟨rfl, by simp [refusesCall, storingMoment, callCreateDepth], by decide⟩
  refine ⟨rfl, by decide +kernel, ?_⟩
  exact (callerStack_exact nestedCode 0x1 rfl).1 _ _ _ _ _ _ _ _ active_storingMoment hp

end Rollback

end Suift
