import WireProtocol.Proofs.Target.Acceptance
import WireProtocol.Proofs.Target.Lines

namespace WireProtocol.Target.Rust

open Text (snakeCase isIdentifier isIdentifierRest)
open Schema (Definition)
open Code

def isNameChar (c : Char) : Bool := isIdentifierRest c || c == '#'

def functionName? (line : List Char) : Option String :=
  let rest := Text.trimStart line
  (Text.stripStart? "fn ".toList ((Text.stripStart? "pub ".toList rest).getD rest)).map
    fun rest => String.ofList (rest.takeWhile isNameChar)

/-- The functions that a text declares, line by line. -/
def functionsIn (text : String) : List String :=
  (Text.splitAt (· == '\n') text.toList).filterMap functionName?

theorem functionName?_onLine (l : Nat × String) :
    functionName? (onLine indentUnit l) = functionName? l.2.toList := by
  rw [onLine]
  split
  · next h => rw [String.isEmpty_iff.1 h]; rfl
  -- Indentation is blank, so it is passed over before a declaration.
  · have hb : ∀ c ∈ (List.replicate l.1 indentUnit).flatMap String.toList,
        Text.isBlank c = true := by
      have hu : ∀ c ∈ indentUnit.toList, Text.isBlank c = true := List.all_eq_true.1 (by decide)
      intro c hc
      obtain ⟨s, hs, hm⟩ := List.mem_flatMap.1 hc
      exact hu c (List.eq_of_mem_replicate hs ▸ hm)
    rw [functionName?, Text.trimStart_append hb]
    rfl

theorem functionsIn_render {code : Code} (h : ∀ t ∈ code.texts, '\n' ∉ t.toList) :
    functionsIn (code.render indentUnit) =
      code.texts.filterMap fun t => functionName? t.toList := by
  rw [functionsIn, splitAt_render (by decide) h, List.filterMap_append, ← map_linesFrom 0,
    List.filterMap_map, List.filterMap_map]
  simp only [Function.comp_def, functionName?_onLine]
  exact List.append_nil _

structure Settles (t : String) (name? : Option String) : Prop where
  flat : '\n' ∉ t.toList
  name : ∀ rest, functionName? (t.toList ++ rest) = name?

namespace Settles

variable {t t' : String} {name? : Option String}

theorem append (h : Settles t name?) (h' : '\n' ∉ t'.toList) : Settles (t ++ t') name? where
  flat := by simp [h.flat, h']
  name rest := by rw [String.toList_append, List.append_assoc, h.name]

theorem function {head name parameters : String} (hh : head = "fn " ∨ head = "pub fn ")
    (hn : ∀ c ∈ name.toList, isNameChar c = true) (hp : '\n' ∉ parameters.toList)
    (hf : parameters.toList.head? = some '(') :
    Settles (head ++ name ++ parameters) (some name) where
  flat := by
    have hline : '\n' ∉ name.toList := fun hm => absurd (hn _ hm) (by decide)
    rcases hh with rfl | rfl <;> simp [hline, hp]
  name rest := by
    obtain ⟨behind, hb⟩ := List.head?_eq_some_iff.1 hf
    have hs : functionName? ((head ++ name ++ parameters).toList ++ rest) =
        some (String.ofList ((name.toList ++ '(' :: (behind ++ rest)).takeWhile isNameChar)) := by
      rw [String.toList_append, String.toList_append, hb, List.append_assoc, List.append_assoc,
        List.cons_append]
      rcases hh with rfl | rfl <;> rfl
    rw [hs, List.takeWhile_append_of_pos hn]
    simp [show isNameChar '(' = false from rfl]

end Settles

structure Declares (code : Code) (names : List String) : Prop where
  flat : ∀ t ∈ code.texts, '\n' ∉ t.toList
  names : code.texts.filterMap (fun t => functionName? t.toList) = names

theorem Declares.functionsIn {code : Code} {names : List String} (h : Declares code names) :
    functionsIn (code.render indentUnit) = names := (functionsIn_render h.flat).trans h.names

namespace Declares

variable {a b : Code} {ns ms : List String}

theorem congr (ha : Declares a ns) (h : a.texts = b.texts) : Declares b ns :=
  ⟨h ▸ ha.flat, h ▸ ha.names⟩

theorem of_eq (ha : Declares a ns) (h : ns = ms) : Declares a ms := h ▸ ha

theorem append (ha : Declares a ns) (hb : Declares b ms) : Declares (a ++ b) (ns ++ ms) where
  flat := by
    rw [texts_append]
    exact List.forall_mem_append.2 ⟨ha.flat, hb.flat⟩
  names := by rw [texts_append, List.filterMap_append, ha.names, hb.names]

theorem one {t : String} {name? : Option String} (h : Settles t name?) :
    Declares (Code.one t) name?.toList where
  flat := by simpa using h.flat
  names := by
    have hn := h.name []
    rw [List.append_nil] at hn
    cases name? <;> simp [hn]

theorem line {t : String} (h : Settles t none) : Declares (Code.one t) [] := one h

theorem blank : Declares Code.blank [] := ⟨by decide, rfl⟩

theorem lines {ts : List String} (h : ∀ t ∈ ts, Settles t none) : Declares (Code.lines ts) [] := by
  have each : Declares (Code.each ts Code.one) [] := by
    induction ts with
    | nil => exact ⟨List.forall_mem_nil _, rfl⟩
    | cons t ts ih =>
      rw [List.forall_mem_cons] at h
      exact (line h.1).append (ih h.2)
  exact each.congr (by simp)

theorem onlyIf {condition : Bool} (h : Declares a []) : Declares (Code.onlyIf condition a) [] := by
  cases condition
  · exact ⟨List.forall_mem_nil _, rfl⟩
  · exact h

theorem braced {head : String} {name? : Option String} (hh : Settles head name?)
    (hb : Declares b ms) : Declares (Code.braced head b) (name?.toList ++ ms) := by
  have closing : Settles "\x7d" none := ⟨by decide, fun _ => rfl⟩
  have h := ((one (@Settles.append _ " \x7b" _ hh (by decide))).append hb).append (line closing)
  exact (h.of_eq (List.append_nil _)).congr (by simp)

theorem concat {α : Type} {as : List α} {piece : α → Code} {name : α → String}
    (h : ∀ a ∈ as, Declares (piece a) [name a]) :
    Declares (Code.concat (as.map piece)) (as.map name) := by
  induction as with
  | nil => exact ⟨List.forall_mem_nil _, rfl⟩
  | cons a as ih =>
    rw [List.forall_mem_cons] at h
    exact h.1.append (ih h.2)

theorem spaced {α : Type} {as : List α} {piece : α → Code} {name : α → String}
    (h : ∀ a ∈ as, Declares (piece a) [name a]) :
    Declares (Code.spaced as piece) (as.map name) := by
  have hs : Declares (Code.spaced as piece) (as.zipIdx.map fun x => name x.1) :=
    concat fun x hx => by
      have ha := h x.1 (List.fst_mem_of_mem_zipIdx hx)
      rcases x with ⟨a, _ | i⟩
      · exact ha
      · exact blank.append ha
  exact hs.of_eq (by rw [← List.zipIdx_map_fst 0 as, List.map_map]; simp [Function.comp_def])

end Declares

theorem isNameChar_moduleName {name : String} (h : isIdentifier name.toList = true) :
    ∀ c ∈ (moduleName name).toList, isNameChar c = true := by
  have hs : ∀ c ∈ (snakeCase name).toList, isNameChar c = true := fun c hc => by
    rw [isNameChar, (Text.lowered_of_mem_snakeCase h hc).1]
    rfl
  have hmark : ∀ c ∈ "r#".toList, isNameChar c = true := List.all_eq_true.1 (by decide)
  rw [moduleName, escape]
  split
  · rw [String.toList_append]
    exact List.forall_mem_append.2 ⟨hmark, hs⟩
  · exact hs

section

variable {d : Definition} {o : Options} {last : Nat} {s : Schema.Service}

variable (hw : d.WellFormed last) (hs : s ∈ d.services)

include hw

theorem declares_opening : Declares (opening (rust.context d o)) [] := by
  refine (Declares.lines fun t ht => ?_).append .blank
  obtain ⟨rest, rfl, hr⟩ := exists_of_mem_banner hw ht
  exact .append ⟨by decide, fun _ => rfl⟩ hr

theorem declares_preamble (condition : Bool) :
    Declares (opening (rust.context d o) ++ onlyIf condition importTypes) [] :=
  (declares_opening hw).append (.onlyIf ((Declares.line ⟨by decide, fun _ => rfl⟩).append .blank))

include hs

theorem newline_notMem_key {r : Schema.Method} (hr : r ∈ s.methods) : '\n' ∉ (s.key r).toList := by
  have hname := newline_notMem_of_isIdentifier (hw.services s hs).name
  have hmethod := newline_notMem_of_isIdentifier ((hw.services s hs).methods r hr).name
  simp [Schema.Service.key, hname, hmethod]

theorem declares_key {r : Schema.Method} (hr : r ∈ s.methods) :
    Declares (one ("/// `" ++ s.key r ++ "`")) [] :=
  .line (.append (.append ⟨by decide, fun _ => rfl⟩ (newline_notMem_key hw hs hr)) (by decide))

theorem declares_clientMethod {r : Schema.Method} (hr : r ∈ s.methods) :
    Declares (clientMethod s r) [rust.methodName r.name] := by
  obtain ⟨hm, hrequest, hresponse⟩ := (hw.services s hs).methods r hr
  have head : Settles ("pub fn " ++ mapping.methodName r.name ++ "(&mut self, request: &" ++
      r.request ++ ") -> pdlkit::Result<" ++ r.response ++ ">")
      (some (mapping.methodName r.name)) :=
    .append (.append (.append (.append
      (.function (.inr rfl) (isNameChar_moduleName hm) (by decide) rfl)
      (newline_notMem_of_isDottedName hrequest)) (by decide))
      (newline_notMem_of_isDottedName hresponse)) (by decide)
  have call : Settles ("self.inner.call(\"" ++ s.key r ++ "\", request)") none :=
    .append (.append ⟨by decide, fun _ => rfl⟩ (newline_notMem_key hw hs hr)) (by decide)
  exact (Declares.blank.append (declares_key hw hs hr)).append (.braced head (.line call))

theorem functionsIn_client : functionsIn (client (rust.context d o) s).contents =
    ["new", "into_inner"] ++ s.methods.map fun r => rust.methodName r.name := by
  have hname := newline_notMem_of_isIdentifier (hw.services s hs).name
  have doc : Settles ("/// Typed client for the `" ++ s.name ++ "` service") none :=
    .append (.append ⟨by decide, fun _ => rfl⟩ hname) (by decide)
  have type : Settles ("pub struct " ++ s.name ++ "Client") none :=
    .append (.append ⟨by decide, fun _ => rfl⟩ hname) (by decide)
  have inner : Settles "inner: pdlkit::network::RpcClient," none := ⟨by decide, fun _ => rfl⟩
  have serviceName : Settles ("pub const SERVICE_NAME: &'static str = \"" ++ s.name ++ "\";")
      none := .append (.append ⟨by decide, fun _ => rfl⟩ hname) (by decide)
  have new : Settles "pub fn new(inner: pdlkit::network::RpcClient) -> Self" (some "new") :=
    ⟨by decide, fun _ => rfl⟩
  have newBody : Settles "Self \x7b inner \x7d" none := ⟨by decide, fun _ => rfl⟩
  have intoInner : Settles "pub fn into_inner(self) -> pdlkit::network::RpcClient"
      (some "into_inner") := ⟨by decide, fun _ => rfl⟩
  have intoInnerBody : Settles "self.inner" none := ⟨by decide, fun _ => rfl⟩
  have methods : Declares (each s.methods (clientMethod s))
      (s.methods.map fun r => rust.methodName r.name) :=
    .concat fun r hr => declares_clientMethod hw hs hr
  have implHead : Settles ("impl " ++ s.name ++ "Client") none :=
    .append (.append ⟨by decide, fun _ => rfl⟩ hname) (by decide)
  have impl := Declares.braced implHead
    ((((((Declares.line serviceName).append .blank).append
      (.braced new (.line newBody))).append .blank).append
      (.braced intoInner (.line intoInnerBody))).append methods)
  have unit := ((((declares_preamble (o := o) hw (!s.methods.isEmpty)).append (.line doc)).append
    (.braced type (.line inner))).append .blank).append impl
  exact (unit.of_eq (by simp)).functionsIn

theorem declares_traitMethod {r : Schema.Method} (hr : r ∈ s.methods) :
    Declares (traitMethod s r) [rust.methodName r.name] := by
  obtain ⟨hm, hrequest, hresponse⟩ := (hw.services s hs).methods r hr
  have head : Settles ("fn " ++ mapping.methodName r.name ++ "(&self, request: " ++ r.request ++
      ") -> std::result::Result<" ++ r.response ++ ", pdlkit::protocol::RpcError>;")
      (some (mapping.methodName r.name)) :=
    .append (.append (.append (.append
      (.function (.inl rfl) (isNameChar_moduleName hm) (by decide) rfl)
      (newline_notMem_of_isDottedName hrequest)) (by decide))
      (newline_notMem_of_isDottedName hresponse)) (by decide)
  exact (declares_key hw hs hr).append (.one head)

theorem functionsIn_handlers : functionsIn (handlers (rust.context d o) s).contents =
    s.methods.map fun r => rust.methodName r.name := by
  have hname := newline_notMem_of_isIdentifier (hw.services s hs).name
  have doc : Settles ("/// Handlers for the `" ++ s.name ++ "` service") none :=
    .append (.append ⟨by decide, fun _ => rfl⟩ hname) (by decide)
  have head : Settles ("pub trait " ++ s.name ++ "Service: Send + Sync + 'static") none :=
    .append (.append ⟨by decide, fun _ => rfl⟩ hname) (by decide)
  have unit := ((declares_preamble (o := o) hw (!s.methods.isEmpty)).append (.line doc)).append
    (.braced head (.spaced fun r hr => declares_traitMethod hw hs hr))
  exact (unit.of_eq (by simp)).functionsIn

theorem nodup_client_iff (hm : (s.methods.map fun r => rust.methodName r.name).Nodup) :
    (functionsIn (client (rust.context d o) s).contents).Nodup ↔
      ∀ r ∈ s.methods, snakeCase r.name ∉ ["new", "into_inner"] := by
  have hown : ∀ own ∈ ["new", "into_inner"], '#' ∉ own.toList ∧ escape own = own := by decide
  have hmethod : ∀ r ∈ s.methods, ∀ own ∈ ["new", "into_inner"],
      rust.methodName r.name = own ↔ snakeCase r.name = own := fun r hr own ho => by
    obtain ⟨hhash, he⟩ := hown own ho
    conv_lhs => rw [← he]
    exact escape_inj (hash_notMem_snakeCase ((hw.services s hs).methods r hr).name) hhash
  rw [functionsIn_client hw hs, List.nodup_append', and_iff_right (by decide), and_iff_right hm,
    List.disjoint_comm, List.disjoint_left, List.forall_mem_map]
  refine forall₂_congr fun r hr => ?_
  simp only [List.mem_cons, List.not_mem_nil, or_false, hmethod r hr "new" (by decide),
    hmethod r hr "into_inner" (by decide)]

end

theorem mem_units_of_render {d : Definition} {o : Options} {units : List SourceUnit}
    (h : render rust d o = .ok units) (ho : o.clientServer = true) {s : Schema.Service}
    (hs : s ∈ d.services) :
    client (rust.context d o) s ∈ units ∧ handlers (rust.context d o) s ∈ units := by
  have hmain : ∀ u ∈ [client (rust.context d o) s, handlers (rust.context d o) s],
      u ∈ rust.mainUnits d o := fun u hu => by
    rw [Language.mainUnits, if_pos ho]
    refine List.mem_append_right _ (List.mem_flatMap.2 ⟨s, hs, ?_⟩)
    simp only [List.mem_cons, List.not_mem_nil, or_false] at hu
    rcases hu with rfl | rfl <;> simp [rust]
  obtain ⟨rfl, -⟩ := units_of_render h
  simp only [Language.units, List.mem_mergeSort, List.mem_append]
  exact ⟨.inl (hmain _ (by simp)), .inl (hmain _ (by simp))⟩

/-- In what is rendered, the trait of each service has one function for each method, all of them
distinct. Its client has these and two of its own, and they are distinct exactly when no method has
the name of one of the two. -/
theorem functions_nodup_iff (source : String) (o : Options) {units : List SourceUnit}
    (h : render rust (Schema.readSource source).definition o = .ok units) :
    let d := (Schema.readSource source).definition
    let cx := rust.context d o
    ∀ s ∈ d.services,
      (o.clientServer = true → client cx s ∈ units ∧ handlers cx s ∈ units) ∧
      (functionsIn (handlers cx s).contents = s.methods.map (fun r => rust.methodName r.name) ∧
        (functionsIn (handlers cx s).contents).Nodup) ∧
      functionsIn (client cx s).contents =
        ["new", "into_inner"] ++ s.methods.map (fun r => rust.methodName r.name) ∧
      ((functionsIn (client cx s).contents).Nodup ↔
        ∀ r ∈ s.methods, snakeCase r.name ∉ ["new", "into_inner"]) := by
  intro d cx s hs
  have hw := Schema.wellFormed_readSource source
  have hm := ((exists_render_iff complete_rust hw.slashFree).1 ⟨units, h⟩).2.1.methods s hs
  have hhandlers := functionsIn_handlers (o := o) hw hs
  exact ⟨fun ho => mem_units_of_render h ho hs, ⟨hhandlers, hhandlers ▸ hm⟩,
    functionsIn_client hw hs, nodup_client_iff hw hs hm⟩

def soleService (method : String) : Schema.Reading :=
  Schema.readSource ("namespace t\nmessage M \x7b \x7d\nservice S \x7b rpc " ++ method ++
    "(M) returns (M); \x7d")

theorem exists_render_soleService {method : String} (h : method ∈ ["Get", "New"]) :
    ∃ units, render rust (soleService method).definition {} = .ok units := by
  have hd : (soleService method).definition.SlashFree :=
    (Schema.wellFormed_readSource _).slashFree
  have hm : ∀ method ∈ ["Get", "New"],
      Schema.Diagnostic.summary? (soleService method).definition.validate = none ∧
        rust.clash? (soleService method).definition = none ∧
        (rustFiling.all (soleService method).definition {}).Nodup := by decide +kernel
  obtain ⟨hv, hc, hn⟩ := hm method h
  exact exists_render_of_none complete_rust hd hv hc hn

theorem functions_nodup_iff_get : ∃ units,
    render rust (soleService "Get").definition {} = .ok units ∧
      ∃ u ∈ units, functionsIn u.contents = ["new", "into_inner", "get"] := by
  obtain ⟨units, h⟩ := @exists_render_soleService "Get" (by decide)
  have declared : ∃ s ∈ (soleService "Get").definition.services,
      s.methods.map (fun r => rust.methodName r.name) = ["get"] := by decide +kernel
  obtain ⟨s, hs, hm⟩ := declared
  obtain ⟨hmem, -, hclient, -⟩ := functions_nodup_iff _ {} h s hs
  exact ⟨units, h, _, (hmem rfl).1, by rw [hclient, hm]; rfl⟩

/-- A method may have the name of a function that every client has. -/
theorem functions_repeated :
    (soleService "New").diagnostics = [] ∧
      ∃ units, render rust (soleService "New").definition {} = .ok units ∧
        ∃ s ∈ (soleService "New").definition.services,
          client (rust.context (soleService "New").definition {}) s ∈ units ∧
            functionsIn (client (rust.context (soleService "New").definition {}) s).contents =
              ["new", "into_inner", "new"] := by
  obtain ⟨units, h⟩ := @exists_render_soleService "New" (by decide)
  have declared : ∃ s ∈ (soleService "New").definition.services,
      s.methods.map (fun r => rust.methodName r.name) = ["new"] := by decide +kernel
  obtain ⟨s, hs, hm⟩ := declared
  refine ⟨by decide +kernel, units, h, s, hs, (mem_units_of_render h rfl hs).1, ?_⟩
  have hw : (soleService "New").definition.WellFormed _ := Schema.wellFormed_readSource _
  rw [functionsIn_client hw hs, hm]
  rfl

end WireProtocol.Target.Rust
