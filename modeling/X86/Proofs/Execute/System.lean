import X86.Proofs.Execute.Data

/-!
# Footprints and derivations of system instructions

Every check of privilege comes before the register that it guards is written. What writes a system
register is derived for wide models only.
-/

namespace X86.Exec

variable {K : ChangeKind → Prop} {S : Prop}

theorem restartable_loadTable (hS : K .system) (t : SystemTable) (i : Instruction) :
    Restartable K S (loadTable t i) := by
  refine .after_reads .cpu fun c => .after_reads (.check _) fun _ => ?_
  refine .after_reads (.location i _) fun l => .after_reads (.readMem _ _) fun limit => ?_
  refine .after_reads (.readMem _ _) fun base => Sure.restartable ?_
  exact (Sure.modify fun m => .table m t _ hS).bind fun _ => .log _

/-- The limit is stored when the base is refused. -/
theorem restartable_storeTable (hS : S) (t : SystemTable) (i : Instruction) :
    Restartable K S (storeTable t i) := by
  refine .after_reads (.location i _) fun l => .after_reads .cpu fun c => ?_
  exact .after_quiet ((Changes.writeMem _ _ _).quiet hS) fun _ => .writeMem _ _ _

theorem restartable_loadSelector (hS : K .system) (s : SystemSegment) (i : Instruction) :
    Restartable K S (loadSelector s i) := by
  refine .after_reads .cpu fun c => .after_reads (.check _) fun _ => ?_
  refine .after_reads (.check _) fun _ => .after_reads (.place i _) fun p => ?_
  refine .after_reads (.readPlace _ _) fun v => Sure.restartable ?_
  exact (Sure.modify fun m => .selector m s _ hS).bind fun _ => .log _

theorem restartable_storeSelector (hG : K .general) (s : SystemSegment) (i : Instruction) :
    Restartable K S (storeSelector s i) := by
  refine .after_reads .cpu fun c => .after_reads (.check _) fun _ => ?_
  exact .after_reads (.place i _) fun _ => .writePlace hG _ _ _

theorem restartable_lmsw (hS : K .system) (i : Instruction) : Restartable K S (lmsw i) := by
  refine .after_reads .cpu fun c => .after_reads (.check _) fun _ => ?_
  refine .after_reads (.place i _) fun p => .after_reads (.readPlace _ _) fun v => ?_
  exact (sure_setCr0 hS _).restartable

theorem restartable_smsw (hG : K .general) (i : Instruction) : Restartable K S (smsw i) :=
  .after_reads (.place i _) fun _ => .after_reads .cpu fun _ => .writePlace hG _ _ _

theorem restartable_clts (hS : K .system) : Restartable K S clts := by
  refine .after_reads .cpu fun c => .after_reads (.check _) fun _ => ?_
  exact Sure.restartable (.modify fun m => .control m .zero _ hS)

theorem restartable_arpl (hG : K .general) (hF : K .flags) (i : Instruction) :
    Restartable K S (arpl i) := by
  refine .after_reads .cpu fun c => .after_reads (.check _) fun _ => ?_
  refine .after_reads (.place i _) fun dst => .after_reads (.place i _) fun src => ?_
  refine .after_reads (.readPlace _ _) fun a => .after_reads (.readPlace _ _) fun b => ?_
  have hFlags (z : Bool) : Sure K (do setFlags { ← flags with zero := z }) :=
    Sure.flags.bind fun f => .setFlags hF _
  exact .ite ((Restartable.writePlace hG _ _ _).before_sure fun _ => hFlags _)
    (hFlags _).restartable

/-! ### Derivations -/

section Derivations

variable {wide : Bool} {P : Cpu → Prop} {i : Instruction}

theorem composed_loadTable (hw : wide = true) (t : SystemTable) (hi : i.Fits wide) :
    Composed wide P (loadTable t i) fun _ _ => True := by
  refine .afterCpu fun c _ => .afterCheck fun _ => .afterLocation hi.dst hi.addr32 fun l hl => ?_
  refine .afterReadMem hl fun limit => .afterReadMem (hl.add _) fun base => ?_
  exact (Composed.moves fun c => .single (.table c t _ hw)).next fun _ => .log _

theorem composed_storeTable (t : SystemTable) (hi : i.Fits wide) :
    Composed wide P (storeTable t i) fun _ _ => True := by
  refine .afterLocation hi.dst hi.addr32 fun l hl => .afterCpu fun c _ => ?_
  exact .afterWriteMem hl (Composed.writeMem _ _ _ (hl.add _)).forget

theorem composed_loadSelector (hw : wide = true) (s : SystemSegment) (hi : i.Fits wide) :
    Composed wide P (loadSelector s i) fun _ _ => True := by
  refine .afterCpu fun c _ => .afterCheck fun _ => .afterCheck fun _ => ?_
  refine .afterPlace hi.dst hi.addr32 fun p hp _ => .afterReadPlace hp fun v => ?_
  exact (Composed.moves fun c => .single (.selector c s _ hw)).next fun _ => .log _

theorem composed_storeSelector (s : SystemSegment) (hi : i.Fits wide) (hDst : i.dst.IsPlain) :
    Composed wide P (storeSelector s i) fun _ _ => True := by
  refine .afterCpu fun c _ => .afterCheck fun _ => ?_
  exact .afterPlace hi.dst hi.addr32 fun _ hp hPlain => .writePlace hp (hPlain hDst) _ _

theorem composed_lmsw (hw : wide = true) (hi : i.Fits wide) :
    Composed wide P (lmsw i) fun _ _ => True := by
  refine .afterCpu fun c _ => .afterCheck fun _ => ?_
  refine .afterPlace hi.dst hi.addr32 fun p hp _ => .afterReadPlace hp fun v => ?_
  exact composed_setCr0 hw _

theorem composed_smsw (hi : i.Fits wide) (hDst : i.dst.IsPlain) :
    Composed wide P (smsw i) fun _ _ => True :=
  .afterPlace hi.dst hi.addr32 fun _ hp hPlain =>
    .afterCpu fun _ _ => .writePlace hp (hPlain hDst) _ _

theorem composed_clts (hw : wide = true) : Composed wide P clts fun _ _ => True := by
  refine .afterCpu fun c _ => .afterCheck fun _ => ?_
  exact .moves fun c => .single (.control c .zero _ hw)

theorem composed_arpl (hi : i.Fits wide) (hDst : i.dst.IsPlain) :
    Composed wide P (arpl i) fun _ _ => True := by
  refine .afterCpu fun c _ => .afterCheck fun _ => ?_
  refine .afterPlace hi.dst hi.addr32 fun dst hp hPlain => ?_
  refine .afterPlace hi.src hi.addr32 fun src hq _ => ?_
  refine .afterReadPlace hp fun a => .afterReadPlace hq fun b => ?_
  have hFlags (z : Bool) (P : Cpu → Prop) :
      Composed wide P (do setFlags { ← flags with zero := z }) fun _ _ => True :=
    composed_setStatus fun f => ⟨rfl, rfl, rfl, rfl, rfl, rfl⟩
  refine .ite (fun _ => ?_) fun _ => hFlags _ _
  exact (Composed.writePlace hp (hPlain hDst) _ _).next fun _ => hFlags _ _

end Derivations

end X86.Exec
