import CableSwig.Parsers.DumpTable
import CableSwig.Parsers.TypeNodeReading

/-!
# The references of a dump

What the parser looks up for the element of a node: the elements and types that the node refers to,
under the ids that were printed for them.
-/
namespace CableSwig.Parsers.DumpReferences

open CableSwig.GccXml.DeclarationAttributes
open CableSwig.GccXml.DeclarationDump
open CableSwig.GccXml.OutputFunctions (FunctionTag)
open CableSwig.GccXml.TypeDump (Element getAttribute idref nodeId)
open CableSwig.Lib.StdString
open CableSwig.Parsers.BasesAttribute (publicIds)
open CableSwig.Parsers.DeclarationReading
open CableSwig.Parsers.DumpTable
open CableSwig.Parsers.ElementReferences
open CableSwig.Parsers.RepresentationBuilder
open CableSwig.Parsers.TypeNodeReading
open CableSwig.Parsers.TypeReader (isQualifier)
open CableSwig.Parsers.TypeReading (not_isQualifier_nodeId)

section Ids

/-- A reference is the id of the node with the qualifiers after it. -/
theorem typeIdref_eq (t : TypeRef) : ∃ cv, xmlPrintTypeIdref t = nodeId t.index ++ cv ∧
    cv.takeWhile (!isQualifier ·) = [] ∧ cv.dropWhile (!isQualifier ·) = cv ∧
      (decide ('c' ∈ cv), decide ('v' ∈ cv)) = t.quals := by
  obtain ⟨index, ⟨isConst, isVolatile⟩, isRestrict⟩ := t
  refine ⟨((if isConst then ['c'] else []) ++ (if isVolatile then ['v'] else [])) ++
    if isRestrict then ['r'] else [], ?_, ?_⟩
  · exact List.append_assoc _ _ _
  · cases isConst <;> cases isVolatile <;> cases isRestrict <;> exact ⟨rfl, rfl, rfl⟩

theorem takeWhile_nodeId (index : Nat) (cv : Text) :
    (nodeId index ++ cv).takeWhile (!isQualifier ·) =
      nodeId index ++ cv.takeWhile (!isQualifier ·) :=
  List.takeWhile_append_of_pos fun c hc => by simp [not_isQualifier_nodeId index c hc]

theorem dropWhile_nodeId (index : Nat) (cv : Text) :
    (nodeId index ++ cv).dropWhile (!isQualifier ·) = cv.dropWhile (!isQualifier ·) :=
  List.dropWhile_append_of_pos fun c hc => by simp [not_isQualifier_nodeId index c hc]

theorem unqualified_typeIdref (t : TypeRef) :
    unqualified (xmlPrintTypeIdref t) = nodeId t.index := by
  obtain ⟨cv, heq, htake, -, -⟩ := typeIdref_eq t
  rw [unqualified, heq, takeWhile_nodeId, htake, List.append_nil]

theorem qualifiers_typeIdref (t : TypeRef) : qualifiers (xmlPrintTypeIdref t) = t.quals := by
  obtain ⟨cv, heq, -, hdrop, hquals⟩ := typeIdref_eq t
  rw [← hquals, qualifiers, heq, dropWhile_nodeId, hdrop]

end Ids

section References

/-- The types that an entry refers to. -/
def followedTypes : Entry → List TypeRef
  | .declaration d => typeRefs d
  | .typeNode t => shapeRefs t.shape

/-- The other nodes that an entry refers to, as far as the parser follows them. -/
def followedNodes : Entry → List Text
  | .declaration d => d.decl.context.toList.map (fun c => nodeId c.index) ++
    match d with
    | .namespaceAlias a => [nodeId a.realNamespace]
    | .record r => recordBases r
    | _ => []
  | .typeNode t => (shapeBasetype t.shape).toList.map nodeId

def followed (entry : Entry) : List Text :=
  followedNodes entry ++ (followedTypes entry).map fun t => nodeId t.index

variable {e : Element} {demangle : Text → Option Text} {id : Text}

theorem elementReferences_cases (h : id ∈ elementReferences e) :
    (e.name ∈ namedElements ∧ getAttribute e.attributes "context" = some id) ∨
    (e.name = "NamespaceAlias" ∧ getAttribute e.attributes "namespace" = some id) ∨
    ((e.name = "MethodType" ∨ e.name = "OffsetType") ∧
      getAttribute e.attributes "basetype" = some id) ∨
    (e.name ∈ classElements ∧ id ∈ publicIds ((getAttribute e.attributes "bases").getD [])) := by
  rcases List.mem_append.mp h with h | h
  · obtain ⟨n, hn, hid⟩ := List.mem_filterMap.mp h
    simp only [elementAttributes, List.mem_append, List.mem_ite_nil_right, List.mem_singleton] at hn
    rcases hn with (⟨hname, rfl⟩ | ⟨hname, rfl⟩) | ⟨hname, rfl⟩
    · exact Or.inl ⟨hname, hid⟩
    · exact Or.inr (Or.inl ⟨hname, hid⟩)
    · exact Or.inr (Or.inr (Or.inl ⟨hname, hid⟩))
  · exact Or.inr (Or.inr (Or.inr (List.mem_ite_nil_right.mp h)))

theorem typeReferences_cases (h : id ∈ typeReferences e) :
    (e.name ∈ ["PointerType", "ReferenceType", "ArrayType", "OffsetType", "Typedef", "Variable",
      "Field"] ∧ getAttribute e.attributes "type" = some id) ∨
    (e.name ∈ ["FunctionType", "MethodType"] ++ functionElements ∧
      (getAttribute e.attributes "returns" = some id ∨ id ∈ argumentTypes e.nested)) := by
  rcases List.mem_append.mp h with h | h
  · obtain ⟨n, hn, hid⟩ := List.mem_filterMap.mp h
    rcases List.mem_append.mp hn with hn | hn
    · obtain ⟨hname, hn⟩ := List.mem_ite_nil_right.mp hn
      exact Or.inl ⟨hname, List.mem_singleton.mp hn ▸ hid⟩
    · obtain ⟨hname, hn⟩ := List.mem_ite_nil_right.mp hn
      exact Or.inr ⟨hname, Or.inl (List.mem_singleton.mp hn ▸ hid)⟩
  · obtain ⟨hname, hid⟩ := List.mem_ite_nil_right.mp h
    exact Or.inr ⟨hname, Or.inr hid⟩

/-- The types of the arguments that are printed. -/
theorem mem_argumentTypes {c : Bool} {args : List (Option Parm × ArgType)}
    {ws nested : List (String × Attributes)} (hargs : List.Forall₂ IsArgument args ws)
    (hnested : List.Forall₂ CarriesNested nested (ws ++ if c then [] else [("Ellipsis", [])]))
    (h : id ∈ argumentTypes nested) : ∃ a ∈ args, id = xmlPrintTypeIdref (argumentType a) := by
  induction args generalizing ws nested with
  | nil =>
    obtain rfl := List.forall₂_nil_left_iff.mp hargs
    rw [List.nil_append] at hnested
    cases c with
    | true =>
      obtain rfl := List.forall₂_nil_right_iff.mp hnested
      cases h
    | false =>
      obtain ⟨n, rest, hn, hrest, rfl⟩ := List.forall₂_cons_right_iff.mp hnested
      obtain rfl := List.forall₂_nil_right_iff.mp hrest
      have hname : n.1 = "Ellipsis" := hn.1
      simp [argumentTypes, hname] at h
  | cons a args ih =>
    obtain ⟨w, ws', hargument, hrest, rfl⟩ := List.forall₂_cons_left_iff.mp hargs
    obtain ⟨n, nested', hn, hnested', rfl⟩ := List.forall₂_cons_right_iff.mp hnested
    have hname : n.1 = "Argument" := hn.1.trans hargument.element
    have htype : getAttribute n.2 "type" = some (xmlPrintTypeIdref (argumentType a)) := by
      rw [hn.2, hargument.type, Option.map_some, attributeValue_simple (simple_typeIdref _)]
    rw [argumentTypes, List.filterMap_cons, if_pos hname, htype] at h
    rcases List.mem_cons.mp h with rfl | h
    · exact ⟨a, List.mem_cons_self, rfl⟩
    · obtain ⟨a', ha', hid⟩ := ih hrest hnested' h
      exact ⟨a', List.mem_cons_of_mem _ ha', hid⟩

/-- The elements of other kinds have other names. -/
theorem alias_of_name {d : Declaration} (h : (xmlOutput demangle d).name = "NamespaceAlias") :
    ∃ a, d = .namespaceAlias a := by
  cases d with
  | namespaceAlias a => exact ⟨a, rfl⟩
  | function d =>
    have h : tagName d.tag = "NamespaceAlias" := h
    cases htag : d.tag <;> simp [htag, tagName] at h
  | record d =>
    have h : d.tag.name = "NamespaceAlias" := h
    cases htag : d.tag <;> simp [htag, RecordTag.name] at h
  | namespaceDecl | typedef | var | field | enumeral =>
    simp [xmlOutput, xmlOutputNamespaceDecl, xmlOutputTypedef, xmlOutputVarDecl,
      xmlOutputFieldDecl, xmlOutputEnumeralType] at h

theorem record_of_name {d : Declaration} (h : (xmlOutput demangle d).name ∈ classElements) :
    ∃ r, d = .record r := by
  cases d with
  | record r => exact ⟨r, rfl⟩
  | function d =>
    have h : tagName d.tag ∈ classElements := h
    cases htag : d.tag <;> simp [htag, tagName, classElements] at h
  | namespaceDecl | namespaceAlias | typedef | var | field | enumeral =>
    simp [xmlOutput, xmlOutputNamespaceDecl, xmlOutputNamespaceAlias, xmlOutputTypedef,
      xmlOutputVarDecl, xmlOutputFieldDecl, xmlOutputEnumeralType, classElements] at h

theorem function_of_name {d : Declaration}
    (h : (xmlOutput demangle d).name ∈ ["FunctionType", "MethodType"] ++ functionElements) :
    ∃ f, d = .function f := by
  cases d with
  | function f => exact ⟨f, rfl⟩
  | record d =>
    have h : d.tag.name ∈ ["FunctionType", "MethodType"] ++ functionElements := h
    cases htag : d.tag <;> simp [htag, RecordTag.name, functionElements] at h
  | namespaceDecl | namespaceAlias | typedef | var | field | enumeral =>
    simp [xmlOutput, xmlOutputNamespaceDecl, xmlOutputNamespaceAlias, xmlOutputTypedef,
      xmlOutputVarDecl, xmlOutputFieldDecl, xmlOutputEnumeralType, functionElements] at h

theorem name_not_mem (d : Declaration) :
    (xmlOutput demangle d).name ∉ ["MethodType", "OffsetType", "FunctionType", "PointerType",
      "ReferenceType", "ArrayType"] := by
  cases d with
  | function d =>
    show tagName d.tag ∉ _
    cases d.tag <;> simp [tagName]
  | record d =>
    show d.tag.name ∉ _
    cases d.tag <;> simp [RecordTag.name]
  | namespaceDecl | namespaceAlias | typedef | var | field | enumeral =>
    simp [xmlOutput, xmlOutputNamespaceDecl, xmlOutputNamespaceAlias, xmlOutputTypedef,
      xmlOutputVarDecl, xmlOutputFieldDecl, xmlOutputEnumeralType]

/-- What is printed as `type` is one of the types of the declaration. -/
theorem type_of_name {d : Declaration}
    (h : (xmlOutput demangle d).name ∈ ["Typedef", "Variable", "Field"]) :
    ∃ t ∈ typeRefs d,
      getAttribute (xmlOutput demangle d).attributes "type" = some (xmlPrintTypeIdref t) := by
  cases d with
  | typedef d => exact ⟨_, List.mem_cons_self, getAttribute_typedef_type d⟩
  | var d => exact ⟨_, List.mem_cons_self, getAttribute_var_type demangle d⟩
  | field d => exact ⟨_, List.mem_cons_self, getAttribute_field_type demangle d⟩
  | function d =>
    have h : tagName d.tag ∈ ["Typedef", "Variable", "Field"] := h
    cases htag : d.tag <;> simp [htag, tagName] at h
  | record d =>
    have h : d.tag.name ∈ ["Typedef", "Variable", "Field"] := h
    cases htag : d.tag <;> simp [htag, RecordTag.name] at h
  | namespaceDecl | namespaceAlias | enumeral =>
    simp [xmlOutput, xmlOutputNamespaceDecl, xmlOutputNamespaceAlias, xmlOutputEnumeralType] at h

section Declarations

variable {d : Declaration} (he : Carries e (xmlOutput demangle d))
include he

theorem mem_followedNodes_declaration (h : id ∈ elementReferences e) :
    id ∈ followedNodes (.declaration d) := by
  rcases elementReferences_cases h with ⟨-, hid⟩ | ⟨hname, hid⟩ | ⟨hname, hid⟩ | ⟨hname, hid⟩
  · rw [he.attributes, getAttribute_xmlOutput_context] at hid
    refine List.mem_append_left _ ?_
    cases hcontext : d.decl.context with
    | none =>
      rw [hcontext] at hid
      cases hid
    | some c =>
      rw [hcontext, Option.map_some, Option.map_some, attributeValue_simple (simple_nodeId _)]
        at hid
      exact Option.some.inj hid ▸ List.mem_singleton.mpr rfl
  · obtain ⟨a, rfl⟩ := alias_of_name (he.name ▸ hname)
    rw [he.attributes, show getAttribute (xmlOutput demangle (.namespaceAlias a)).attributes
      "namespace" = _ from getAttribute_alias_namespace demangle a, Option.map_some,
      attributeValue_simple (simple_nodeId _)] at hid
    refine List.mem_append_right _ ?_
    exact Option.some.inj hid ▸ List.mem_singleton.mpr rfl
  · have hnot := he.name ▸ name_not_mem d
    rcases hname with hname | hname <;> simp [hname] at hnot
  · obtain ⟨r, rfl⟩ := record_of_name (he.name ▸ hname)
    rw [publicIds_carried he] at hid
    exact List.mem_append_right _ hid

theorem mem_followedTypes_declaration {tid : Text} (h : tid ∈ typeReferences e) :
    ∃ t ∈ followedTypes (.declaration d), tid = xmlPrintTypeIdref t := by
  rcases typeReferences_cases h with ⟨hname, hid⟩ | ⟨hname, hid⟩
  · have hnot := he.name ▸ name_not_mem d
    have hmem : e.name ∈ ["Typedef", "Variable", "Field"] := by
      simp only [List.mem_cons, List.not_mem_nil, or_false, not_or] at hname hnot ⊢
      tauto
    obtain ⟨t, ht, htype⟩ := type_of_name (he.name ▸ hmem)
    rw [he.attributes, htype, Option.map_some, attributeValue_simple (simple_typeIdref _)] at hid
    exact ⟨t, ht, (Option.some.inj hid).symm⟩
  · obtain ⟨f, rfl⟩ := function_of_name (he.name ▸ hname)
    rcases hid with hid | hid
    · rw [he.attributes, show getAttribute (xmlOutput demangle (.function f)).attributes
        "returns" = _ from getAttribute_function_returns demangle f] at hid
      cases hreturns : f.tag.doReturns with
      | false =>
        rw [hreturns] at hid
        cases hid
      | true =>
        rw [hreturns, if_pos rfl, Option.map_some, attributeValue_simple (simple_typeIdref _)]
          at hid
        refine ⟨f.returns, ?_, (Option.some.inj hid).symm⟩
        simp [followedTypes, typeRefs, hreturns]
    · obtain ⟨a, ha, rfl⟩ := mem_argumentTypes (outputArguments_eq _ _) he.nested hid
      exact ⟨argumentType a, List.mem_append_right _ (List.mem_map_of_mem ha), rfl⟩

end Declarations

section TypeNodes

variable {t : TypeNode} (he : Carries e (xmlOutputTypeNode t))
include he

theorem mem_followedNodes_typeNode (h : id ∈ elementReferences e) :
    id ∈ followedNodes (.typeNode t) := by
  have hshape : e.name = t.shape.name := he.name
  have hbasetype := carries_shape he (n := "basetype") (by decide)
  rcases elementReferences_cases h with ⟨hname, -⟩ | ⟨hname, -⟩ | ⟨hname, hid⟩ | ⟨hname, -⟩
  · rw [hshape] at hname
    cases hcase : t.shape <;>
      simp [hcase, TypeShape.name, namedElements, classElements, functionElements] at hname
  · rw [hshape] at hname
    cases hcase : t.shape <;> simp [hcase, TypeShape.name] at hname
  · rw [hbasetype] at hid
    rw [hshape] at hname
    cases hcase : t.shape with
    | method basetype returns quals argTypes voidTerminated =>
      rw [hcase] at hid
      have hid : some (attributeValue (nodeId basetype)) = some id := hid
      rw [attributeValue_simple (simple_nodeId _)] at hid
      simp [followedNodes, hcase, shapeBasetype, (Option.some.inj hid).symm]
    | offset basetype type =>
      rw [hcase] at hid
      have hid : some (attributeValue (nodeId basetype)) = some id := hid
      rw [attributeValue_simple (simple_nodeId _)] at hid
      simp [followedNodes, hcase, shapeBasetype, (Option.some.inj hid).symm]
    | fundamental | pointer | reference | array | function =>
      simp [hcase, TypeShape.name] at hname
  · rw [hshape] at hname
    cases hcase : t.shape <;> simp [hcase, TypeShape.name, classElements] at hname

/-- The types of the arguments of a type node, which have no declarations. -/
theorem mem_shapeRefs_argument {tid : Text} {argTypes : List ArgType} {voidTerminated : Bool}
    (hnested : (xmlOutputTypeNode t).nested = outputArgTypes argTypes voidTerminated)
    (h : tid ∈ argumentTypes e.nested) :
    ∃ ref ∈ argTypes.map ArgType.value, tid = xmlPrintTypeIdref ref := by
  have hcarried := he.nested
  rw [hnested] at hcarried
  obtain ⟨a, ha, rfl⟩ := mem_argumentTypes (outputArguments_eq [] argTypes) hcarried h
  obtain ⟨hnone, hmem⟩ := mem_printedArguments_nil ha
  refine ⟨argumentType a, ?_, rfl⟩
  rw [argumentType, hnone]
  exact List.mem_map_of_mem hmem

theorem mem_followedTypes_typeNode {tid : Text} (h : tid ∈ typeReferences e) :
    ∃ ref ∈ followedTypes (.typeNode t), tid = xmlPrintTypeIdref ref := by
  have hshape : e.name = t.shape.name := he.name
  have htype := carries_shape he (n := "type") (by decide)
  have hreturns := carries_shape he (n := "returns") (by decide)
  have hsimple : ∀ {ref : TypeRef},
      some (attributeValue (xmlPrintTypeIdref ref)) = some tid → tid = xmlPrintTypeIdref ref := by
    intro ref hid
    rw [attributeValue_simple (simple_typeIdref _)] at hid
    exact (Option.some.inj hid).symm
  rcases typeReferences_cases h with ⟨hname, hid⟩ | ⟨hname, hid⟩
  · rw [htype] at hid
    rw [hshape] at hname
    cases hcase : t.shape with
    | pointer target | reference target | array max target | offset basetype target =>
      rw [hcase] at hid
      exact ⟨target, by simp [followedTypes, hcase, shapeRefs], hsimple hid⟩
    | fundamental | function | method => simp [hcase, TypeShape.name] at hname
  · rw [hreturns] at hid
    rw [hshape] at hname
    cases hcase : t.shape with
    | function returns argTypes voidTerminated
    | method basetype returns quals argTypes voidTerminated =>
      rcases hid with hid | hid
      · rw [hcase] at hid
        exact ⟨returns, by simp [followedTypes, hcase, shapeRefs], hsimple hid⟩
      · have hnested : (xmlOutputTypeNode t).nested = outputArgTypes argTypes voidTerminated := by
          simp only [xmlOutputTypeNode, hcase]
        obtain ⟨ref, hmem, rfl⟩ := mem_shapeRefs_argument he hnested hid
        exact ⟨ref, by simp [followedTypes, hcase, shapeRefs, hmem], rfl⟩
    | fundamental | pointer | reference | array | offset =>
      simp [hcase, TypeShape.name, functionElements] at hname

end TypeNodes

/-- The parser follows the references of the node only. -/
theorem references_subset {entry : Entry} (he : Carries e (entry.output demangle)) :
    references e ⊆ followed entry := by
  intro id hid
  have hnodes : ∀ id ∈ elementReferences e, id ∈ followedNodes entry := by
    cases entry with
    | declaration d => exact fun id => mem_followedNodes_declaration he
    | typeNode t => exact fun id => mem_followedNodes_typeNode he
  have htypes : ∀ tid ∈ typeReferences e, ∃ t ∈ followedTypes entry, tid = xmlPrintTypeIdref t := by
    cases entry with
    | declaration d => exact fun tid => mem_followedTypes_declaration he
    | typeNode t => exact fun tid => mem_followedTypes_typeNode he
  rcases List.mem_append.mp hid with hid | hid
  · exact List.mem_append_left _ (hnodes id hid)
  · obtain ⟨tid, htid, rfl⟩ := List.mem_map.mp hid
    obtain ⟨t, ht, rfl⟩ := htypes tid htid
    rw [unqualified_typeIdref]
    exact List.mem_append_right _ (List.mem_map_of_mem (f := fun t => nodeId t.index) ht)

end References

end CableSwig.Parsers.DumpReferences
