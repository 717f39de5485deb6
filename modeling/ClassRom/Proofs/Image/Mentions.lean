import ClassRom.Proofs.Image.Loading
import ClassRom.Proofs.Relocation.TableUses

/-!
# What a class mentions

A class mentions constants in its declarations, in the operands of its code and in the tables beside
the code. The lists here say which, without scanning anything. What is charged for a class is exactly
what it mentions.
-/

namespace ClassRom

set_option autoImplicit false

noncomputable def Method.mentions (method : Method) : List UInt16 :=
  method.body.elim [] fun body =>
    body.bytecode.oneByteOperands ++ body.bytecode.twoByteOperands ++ body.tables.mentions

namespace ClassFile

variable {file : ClassFile}

/-- The name and the value, if the attribute gives the initial value of a field. -/
def valueMentions (file : ClassFile) (attr : Attribute) : List UInt16 :=
  if file.constants.utf8 attr.name = .ok "ConstantValue" then
    match Reader.u16 attr.info with
    | .ok (value, _) => [attr.name, value]
    | .error _ => []
  else []

def declarations (file : ClassFile) : List UInt16 :=
  file.thisClass :: (if file.superClass = 0 then [] else [file.superClass]) ++ file.interfaces ++
    (file.fields.flatMap fun field =>
      field.name :: field.descriptor :: field.attributes.flatMap file.valueMentions) ++
    file.methods.flatMap fun method => [method.name, method.descriptor]

noncomputable def mentions (file : ClassFile) : List UInt16 :=
  file.declarations ++ file.methods.flatMap Method.mentions

noncomputable def oneByteOperands (file : ClassFile) : List UInt16 :=
  file.methods.flatMap fun method => method.body.elim [] (·.bytecode.oneByteOperands)

theorem mentions_of_methods_eq_nil (h : file.methods = []) : file.mentions = file.declarations := by
  rw [mentions, h, List.flatMap_nil, List.append_nil]

theorem initialValue_ok {attr : Attribute} {indices : List UInt16}
    (h : file.initialValue attr = .ok indices) : indices = file.valueMentions attr := by
  obtain ⟨name, hName, hRest⟩ := Traversal.bind_eq_ok.mp h
  unfold valueMentions
  rw [hName]
  by_cases hValue : name = "ConstantValue"
  · rw [if_pos hValue] at hRest
    obtain ⟨⟨value, rest⟩, hRead, hDone⟩ := Traversal.bind_eq_ok.mp hRest
    cases hDone
    rw [if_pos (by rw [hValue]), hRead]
  · rw [if_neg hValue] at hRest
    cases hRest
    rw [if_neg fun hEq => hValue (Except.ok.inj hEq)]

theorem declared_ok {indices : List UInt16} (h : file.declared = .ok indices) :
    indices = file.declarations := by
  obtain ⟨fields, hFields, hDone⟩ := Traversal.bind_eq_ok.mp h
  cases hDone
  have hField (field : Field) (mentions : List UInt16)
      (h : (do
        let values ← field.attributes.mapM file.initialValue
        return field.name :: field.descriptor :: values.flatten) = .ok mentions) :
      mentions =
        field.name :: field.descriptor :: field.attributes.flatMap file.valueMentions := by
    obtain ⟨values, hValues, hDone⟩ := Traversal.bind_eq_ok.mp h
    cases hDone
    rw [Traversal.eq_map_of_mapM_eq_ok (fun _ _ => initialValue_ok) hValues, List.flatMap_def]
  rw [Traversal.eq_map_of_mapM_eq_ok hField hFields, ← List.flatMap_def]
  rfl

theorem map_index_bodyUses
    (h : ∀ method ∈ file.methods, ∀ body ∈ method.body, body.bytecode.Scanned) :
    file.bodyUses.map Use.index = file.methods.flatMap Method.mentions := by
  unfold bodyUses
  rw [List.map_flatMap]
  refine List.flatMap_congr fun method hMethod => ?_
  unfold Method.uses Method.mentions
  cases hBody : method.body with
  | none => rfl
  | some body =>
    have hScanned := h method hMethod body hBody
    simp only [Option.elim_some, Bytecode.uses, List.map_append, hScanned.map_index_singleUses,
      hScanned.map_index_doubleUses, SideTables.map_index_uses]

theorem map_index_filter_bodyUses
    (h : ∀ method ∈ file.methods, ∀ body ∈ method.body, body.bytecode.Scanned) :
    (file.bodyUses.filter Use.single).map Use.index = file.oneByteOperands := by
  unfold bodyUses oneByteOperands
  rw [List.filter_flatMap, List.map_flatMap]
  refine List.flatMap_congr fun method hMethod => ?_
  unfold Method.uses
  cases hBody : method.body with
  | none => rfl
  | some body =>
    rw [Option.elim_some, Option.elim_some, List.filter_append, Bytecode.filter_single_uses,
      SideTables.filter_single_uses, List.append_nil,
      (h method hMethod body hBody).map_index_singleUses]

/-- Scanning changes nothing about what a class mentions. -/
theorem mentions_of_scan {scanned : ClassFile} (h : file.scan = .ok scanned) :
    scanned.mentions = file.mentions ∧ scanned.oneByteOperands = file.oneByteOperands := by
  obtain ⟨hRest, hMethods⟩ := scan_rewritten h
  have hBody {before after : Body} (hScans : Body.Scans before after) :
      after.bytecode.code = before.bytecode.code ∧ after.tables = before.tables :=
    ⟨(Bytecode.scan_ok hScans.bytecode).2.2, by rw [hScans.rest_eq]⟩
  have hNames : scanned.methods.flatMap (fun method => [method.name, method.descriptor]) =
      file.methods.flatMap fun method => [method.name, method.descriptor] := by
    refine Traversal.flatMap_eq_of_forall₂ ?_ hMethods
    intro before after hMethod
    rw [hMethod.rest_eq]
  have hDeclarations : scanned.declarations = file.declarations := by
    unfold declarations
    rw [hNames, hRest]
    rfl
  constructor
  · unfold mentions
    rw [hDeclarations]
    refine congrArg (file.declarations ++ ·) (Traversal.flatMap_eq_of_forall₂ ?_ hMethods)
    refine fun method method' hMethod => Traversal.elim_eq_of_rel ?_ hMethod.body
    intro before after hScans
    obtain ⟨hCode, hTables⟩ := hBody hScans
    rw [Bytecode.oneByteOperands_congr hCode, Bytecode.twoByteOperands_congr hCode, hTables]
  · refine Traversal.flatMap_eq_of_forall₂ ?_ hMethods
    refine fun method method' hMethod => Traversal.elim_eq_of_rel ?_ hMethod.body
    intro before after hScans
    exact Bytecode.oneByteOperands_congr (hBody hScans).1

/-- All that is charged for a class. -/
def uses (file : ClassFile) : List Use :=
  (file.declarations.map fun index => ⟨0, index, false⟩) ++ file.bodyUses

theorem map_index_uses
    (h : ∀ method ∈ file.methods, ∀ body ∈ method.body, body.bytecode.Scanned) :
    file.uses.map Use.index = file.mentions := by
  unfold uses mentions
  rw [List.map_append, List.map_map, map_index_bodyUses h]
  simp [Function.comp_def]

theorem map_index_filter_uses
    (h : ∀ method ∈ file.methods, ∀ body ∈ method.body, body.bytecode.Scanned) :
    (file.uses.filter Use.single).map Use.index = file.oneByteOperands := by
  unfold uses
  rw [List.filter_append, List.map_append, map_index_filter_bodyUses h]
  simp [List.filter_map, Function.comp_def]

theorem oneByteOperands_sublist (file : ClassFile) :
    file.oneByteOperands.Sublist file.mentions := by
  refine .trans ?_ (List.sublist_append_right file.declarations _)
  unfold oneByteOperands
  induction file.methods with
  | nil => exact .refl _
  | cons method methods ih =>
    rw [List.flatMap_cons, List.flatMap_cons, Method.mentions]
    refine .append ?_ ih
    cases method.body with
    | none => exact .refl _
    | some body =>
      rw [Option.elim_some, Option.elim_some, List.append_assoc]
      exact List.sublist_append_left _ _

end ClassFile

end ClassRom
