import WireProtocol.Proofs.Rpc.Routing
import WireProtocol.Proofs.Target.Acceptance

namespace WireProtocol.Schema

def Definition.calls (d : Definition) : List (Service × Method) :=
  d.services.flatMap fun s => s.methods.map (s, ·)

theorem Definition.mem_calls {d : Definition} {c : Service × Method} :
    c ∈ d.calls ↔ c.1 ∈ d.services ∧ c.2 ∈ c.1.methods := by
  obtain ⟨s, r⟩ := c
  simp only [calls, List.mem_flatMap, List.mem_map, Prod.mk.injEq]
  constructor
  · rintro ⟨s', hs, r', hr, rfl, rfl⟩
    exact ⟨hs, hr⟩
  · exact fun ⟨hs, hr⟩ => ⟨s, hs, r, hr, rfl, rfl⟩

structure Definition.Named (d : Definition) : Prop where
  services : (d.services.map (·.name)).Nodup
  methods : ∀ s ∈ d.services, (s.methods.map (·.name)).Nodup
  noDot : ∀ s ∈ d.services, '.' ∉ s.name.toList

theorem Definition.WellFormed.named {d : Definition} {last : Nat} (hw : d.WellFormed last)
    (h : ¬ Faulty d.validate) : d.Named where
  services := (Target.nodup_names h).2.1
  methods := (Target.nodup_names h).2.2
  noDot s hs hm :=
    absurd (Text.isIdentifierRest_of_isIdentifier (hw.services s hs).name _ hm) (by decide)

theorem Definition.Named.nodup_calls {d : Definition} (h : d.Named) : d.calls.Nodup := by
  refine List.nodup_flatMap.2 ⟨fun s hs => ?_, ?_⟩
  · exact (h.methods s hs).of_map.map (Prod.mk_right_injective s)
  · refine h.services.of_map.imp fun hne => ?_
    rintro c hc hc'
    obtain ⟨r, -, rfl⟩ := List.mem_map.1 hc
    obtain ⟨r', -, he⟩ := List.mem_map.1 hc'
    exact hne (congrArg Prod.fst he).symm

end WireProtocol.Schema

namespace WireProtocol.Rpc

open Wire

section

variable {α : Type} {name : α → String} {l : List α} {a : α}

theorem Latest.of_mem (h : (l.map name).Nodup) (ha : a ∈ l) : Latest name l (name a) a := by
  obtain ⟨before, after, rfl⟩ := List.append_of_mem ha
  refine ⟨rfl, before, after, rfl, fun b hb he => ?_⟩
  rw [List.map_append, List.map_cons] at h
  exact (List.nodup_cons.1 h.of_append_right).1 (he ▸ List.mem_map_of_mem hb)

end

/-- What a key leads to among the services and methods of a definition. -/
inductive Leads (d : Schema.Definition) :
    String → Except Failure (Schema.Service × Schema.Method) → Prop
  | method {c : Schema.Service × Schema.Method} (hc : c ∈ d.calls) :
    Leads d (c.1.key c.2) (.ok c)
  | noDot {key : String} (hk : '.' ∉ key.toList) :
    Leads d key (.error (.badRequest s!"malformed method key `{key}`"))
  | unknownService {service method : String} (hk : '.' ∉ service.toList)
    (hs : ∀ s ∈ d.services, s.name ≠ service) :
    Leads d (service ++ "." ++ method)
      (.error ⟨.unknownService, s!"unknown service `{service}`"⟩)
  | unknownMethod {s : Schema.Service} {method : String} (hs : s ∈ d.services)
    (hr : ∀ r ∈ s.methods, r.name ≠ method) :
    Leads d (s.name ++ "." ++ method)
      (.error ⟨.unknownMethod, s!"service `{s.name}` has no method `{method}`"⟩)

theorem exists_leads (d : Schema.Definition) (key : String) : ∃ v, Leads d key v := by
  by_cases hd : '.' ∈ key.toList
  · obtain ⟨service, method, hk, rfl⟩ := Request.exists_of_dot hd
    by_cases hs : ∃ s ∈ d.services, s.name = service
    · obtain ⟨s, hs, rfl⟩ := hs
      by_cases hr : ∃ r ∈ s.methods, r.name = method
      · obtain ⟨r, hr, rfl⟩ := hr
        exact ⟨_, Leads.method (c := (s, r)) (Schema.Definition.mem_calls.2 ⟨hs, hr⟩)⟩
      · exact ⟨_, .unknownMethod hs fun r hm he => hr ⟨r, hm, he⟩⟩
    · exact ⟨_, .unknownService hk fun s hm he => hs ⟨s, hm, he⟩⟩
  · exact ⟨_, .noDot hd⟩

/-- How the services of a definition are registered: each of them once and with one entry for each
of its methods, both in some order. -/
structure Enrolment (m : Type → Type) {ι : Type} (F : Family ι) (d : Schema.Definition) where
  services : List Schema.Service
  perm_services : services.Perm d.services
  methods : Schema.Service → List Schema.Method
  perm_methods : ∀ s ∈ d.services, (methods s).Perm s.methods
  entry : Schema.Service → Schema.Method → Entry m F
  name_entry : ∀ s r, (entry s r).name = r.name

namespace Enrolment

variable {ι : Type} {F : Family ι} {m : Type → Type} {d : Schema.Definition}

def roster (e : Enrolment m F d) (s : Schema.Service) : Roster m F :=
  ⟨s.name, (e.methods s).map (e.entry s)⟩

def rosters (e : Enrolment m F d) : Rosters m F := e.services.map e.roster

theorem latest_roster (e : Enrolment m F d) (h : d.Named) {s : Schema.Service}
    (hs : s ∈ d.services) : Latest Roster.name e.rosters s.name (e.roster s) := by
  have hn : (e.rosters.map Roster.name).Nodup := by
    rw [rosters, List.map_map]
    exact (e.perm_services.map _).nodup_iff.2 h.services
  exact Latest.of_mem hn (List.mem_map_of_mem (e.perm_services.mem_iff.2 hs))

theorem names_entries (e : Enrolment m F d) (s : Schema.Service) :
    (e.roster s).entries.map Entry.name = (e.methods s).map (·.name) := by
  rw [roster, List.map_map]
  exact List.map_congr_left fun r _ => e.name_entry s r

theorem latest_entry (e : Enrolment m F d) (h : d.Named) {s : Schema.Service}
    (hs : s ∈ d.services) {r : Schema.Method} (hr : r ∈ s.methods) :
    Latest Entry.name (e.roster s).entries r.name (e.entry s r) := by
  rw [← e.name_entry s r]
  refine Latest.of_mem ?_ (List.mem_map_of_mem ((e.perm_methods s hs).mem_iff.2 hr))
  rw [names_entries]
  exact ((e.perm_methods s hs).map _).nodup_iff.2 (h.methods s hs)

theorem entry_of_leads (e : Enrolment m F d) (h : d.Named) {key : String}
    {v : Except Failure (Schema.Service × Schema.Method)} (hv : Leads d key v) :
    e.rosters.entry key = v.map fun c => e.entry c.1 c.2 := by
  cases hv with
  | noDot hk => exact Rosters.entry_of_noDot hk
  | unknownService hk hs =>
    rw [Rosters.entry_dot hk, latest?_eq_none_iff.2]
    · rfl
    · exact List.forall_mem_map.2 fun s hm => hs s (e.perm_services.mem_iff.1 hm)
  | unknownMethod hs hr =>
    rw [Rosters.entry_dot (h.noDot _ hs), latest?_eq_some_iff.2 (e.latest_roster h hs)]
    dsimp only
    rw [latest?_eq_none_iff.2]
    · rfl
    · refine List.forall_mem_map.2 fun r hm => ?_
      rw [e.name_entry]
      exact hr r ((e.perm_methods _ hs).mem_iff.1 hm)
  | method hc =>
    obtain ⟨hs, hr⟩ := Schema.Definition.mem_calls.1 hc
    rw [Schema.Service.key, Rosters.entry_dot (h.noDot _ hs),
      latest?_eq_some_iff.2 (e.latest_roster h hs)]
    dsimp only
    rw [latest?_eq_some_iff.2 (e.latest_entry h hs hr)]
    rfl

def naming (d : Schema.Definition) : Enrolment (fun _ => Schema.Service × Schema.Method) F d where
  services := d.services
  perm_services := .refl _
  methods := Schema.Service.methods
  perm_methods _ _ := .refl _
  entry s r := .raw r.name fun _ => (s, r)
  name_entry _ _ := rfl

theorem entry_naming_injective : Function.Injective
    fun c : Schema.Service × Schema.Method => (naming (F := F) d).entry c.1 c.2 := by
  rintro ⟨s, r⟩ ⟨s', r'⟩ he
  exact congrFun (Entry.raw.inj he).2.1 none

end Enrolment

section

variable {d : Schema.Definition} {key : String}
  {v v' : Except Failure (Schema.Service × Schema.Method)}

theorem Leads.unique (h : d.Named) (hv : Leads d key v) (hv' : Leads d key v') : v' = v := by
  have he := ((Enrolment.naming (F := chain) d).entry_of_leads h hv').symm.trans
    ((Enrolment.naming d).entry_of_leads h hv)
  cases v' with
  | error f' =>
    cases v with
    | error f => exact congrArg _ (Except.error.inj he)
    | ok c => cases he
  | ok c' =>
    cases v with
    | error f => cases he
    | ok c => exact congrArg _ (Enrolment.entry_naming_injective (Except.ok.inj he))

theorem Leads.eq_ok_iff (h : d.Named) (hv : Leads d key v) {c : Schema.Service × Schema.Method}
    (hc : c ∈ d.calls) : v = .ok c ↔ key = c.1.key c.2 := by
  constructor
  · rintro rfl
    cases hv
    rfl
  · rintro rfl
    exact Leads.unique h (.method hc) hv

theorem nodup_keys (h : d.Named) :
    (d.calls.map fun c => c.1.key c.2).Nodup := by
  refine List.Nodup.map_on (fun c hc c' hc' he => ?_) h.nodup_calls
  have hv : Leads d (c'.1.key c'.2) (.ok c) := he ▸ .method hc
  exact Except.ok.inj ((Leads.method hc').unique h hv)

end

namespace Enrolment

variable {ι : Type} [DecidableEq ι] {F : Family ι} {m : Type → Type} {d : Schema.Definition}

def verdict (e : Enrolment m F d) (o? : Option (Object F)) :
    Except Failure (Schema.Service × Schema.Method) → Verdict m F
  | .error f => .refused f
  | .ok c => (e.entry c.1 c.2).verdict o?

def response (e : Enrolment Id F d) (o? : Option (Object F)) :
    Except Failure (Schema.Service × Schema.Method) → Response F
  | .error f => .err f
  | .ok c => ((e.entry c.1 c.2).run o?).response

def noting (e : Enrolment Id F d) :
    Enrolment (StateM (List (Schema.Service × Schema.Method))) F d where
  services := e.services
  perm_services := e.perm_services
  methods := e.methods
  perm_methods := e.perm_methods
  entry s r := .raw r.name fun o? => do
    modify (· ++ [(s, r)])
    return (e.entry s r).run o?
  name_entry _ _ := rfl

section

variable {key : String} {v : Except Failure (Schema.Service × Schema.Method)}

theorem verdict_of_leads (e : Enrolment m F d) (h : d.Named) (hv : Leads d key v)
    (o? : Option (Object F)) : e.rosters.verdict key o? = e.verdict o? v := by
  rw [Rosters.verdict, e.entry_of_leads h hv]
  cases v <;> rfl

theorem call_of_leads (e : Enrolment Id F d) (h : d.Named) (hv : Leads d key v)
    (o? : Option (Object F)) : e.rosters.dispatcher.call ⟨key, o?⟩ = e.response o? v := by
  rw [Dispatcher.call, e.rosters.method_dispatcher, e.entry_of_leads h hv]
  cases v with
  | error f => rfl
  | ok c => exact congrArg Outcome.response ((e.entry c.1 c.2).run_method o?)

theorem noting_of_leads (e : Enrolment Id F d) (h : d.Named) (hv : Leads d key v)
    (o? : Option (Object F)) :
    (e.noting.rosters.verdict key o?).response.run [] =
      (e.rosters.dispatcher.call ⟨key, o?⟩, v.toOption.toList) := by
  rw [e.call_of_leads h hv, e.noting.verdict_of_leads h hv]
  cases v <;> rfl

end

/-- In what is read of any text without errors, a key is cut into the names of its service and its
method, and no two methods have the same key. However the methods are registered, a call runs the
handler of the method whose key it has; with any other key it runs none, and is refused for want of
a dot, of a service, or of a method. -/
theorem dispatches (source : String)
    (h : ¬ Schema.Faulty (Schema.readSource source).definition.validate) :
    let d := (Schema.readSource source).definition
    (∀ c ∈ d.calls, Request.splitKey? (c.1.key c.2) = some (c.1.name, c.2.name)) ∧
    (d.calls.map fun c => c.1.key c.2).Nodup ∧
    ∀ key, ∃ v, Leads d key v ∧ (∀ v', Leads d key v' → v' = v) ∧
      (∀ c ∈ d.calls, v = .ok c ↔ key = c.1.key c.2) ∧
      (∀ (m : Type → Type) (e : Enrolment m F d) (o? : Option (Object F)),
        e.rosters.verdict key o? = e.verdict o? v) ∧
      ∀ (e : Enrolment Id F d) (o? : Option (Object F)),
        e.rosters.dispatcher.call ⟨key, o?⟩ = e.response o? v ∧
        (e.noting.rosters.verdict key o?).response.run [] =
          (e.rosters.dispatcher.call ⟨key, o?⟩, v.toOption.toList) := by
  intro d
  have hn : d.Named := (Schema.wellFormed_readSource source).named h
  refine ⟨fun c hc => ?split, nodup_keys hn, fun key => ?key⟩
  case split => exact Request.splitKey?_dot (hn.noDot _ (Schema.Definition.mem_calls.1 hc).1) _
  case key =>
    obtain ⟨v, hv⟩ := exists_leads d key
    exact ⟨v, hv, fun v' hv' => hv.unique hn hv', fun c hc => hv.eq_ok_iff hn hc,
      fun m e o? => e.verdict_of_leads hn hv o?,
      fun e o? => ⟨e.call_of_leads hn hv o?, e.noting_of_leads hn hv o?⟩⟩

def twins : String :=
  "namespace t\nmessage A \x7b \x7d\nservice S \x7b\n  rpc Get(A) returns (A)\n\x7d\n" ++
  "service T \x7b\n  rpc Get(A) returns (A)\n\x7d\n"

def failing (d : Schema.Definition) : Enrolment Id chain d where
  services := d.services.reverse
  perm_services := List.reverse_perm _
  methods := Schema.Service.methods
  perm_methods _ _ := .refl _
  entry s r := .raw r.name fun _ => .failure ⟨.handlerFailed, s.name⟩
  name_entry _ _ := rfl

theorem dispatches_twins :
    (failing (Schema.readSource twins).definition).rosters.dispatcher.call ⟨"T.Get", none⟩ =
      .err ⟨.handlerFailed, "T"⟩ := by
  have valid : ¬ Schema.Faulty (Schema.readSource twins).definition.validate :=
    Schema.Diagnostic.summary?_eq_none_iff.1 (by decide +kernel)
  have hc : ∃ c ∈ (Schema.readSource twins).definition.calls,
      c.1.key c.2 = "T.Get" ∧ c.1.name = "T" := by decide +kernel
  obtain ⟨c, hc, hk, hs⟩ := hc
  obtain ⟨-, -, hd⟩ := dispatches (F := chain) twins valid
  obtain ⟨v, -, -, hv, -, hr⟩ := hd "T.Get"
  rw [(hr (failing _) none).1, (hv c hc).2 hk.symm]
  exact congrArg (fun name => Response.err ⟨.handlerFailed, name⟩) hs

end Enrolment

end WireProtocol.Rpc
