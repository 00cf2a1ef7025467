import WireProtocol.Proofs.Rpc.Transparency
import WireProtocol.Proofs.Wire.Delimiting
import WireProtocol.Proofs.Wire.Lending

namespace WireProtocol.Wire

theorem Registry.Reachable.delimits {ι : Type} [DecidableEq ι] {F : Family ι} {g : Registry F}
    (hg : g.Reachable) : ∀ h ∈ g.handlers, Read.Delimits h.read :=
  fun h hm => (hg.standard h hm).read Read.closed_delimits Record.delimits_read

end WireProtocol.Wire

namespace WireProtocol.Rpc

open Wire

section Latest

variable {α : Type} {name : α → String} {l : List α} {k : String} {a : α}

/-- The element has the name, and none after it has. -/
structure Latest (name : α → String) (l : List α) (k : String) (a : α) : Prop where
  name_eq : name a = k
  last : ∃ before after, l = before ++ a :: after ∧ ∀ b ∈ after, name b ≠ k

def latest? (name : α → String) (l : List α) (k : String) : Option α :=
  l.reverse.find? (name · == k)

theorem latest?_eq_none_iff : latest? name l k = none ↔ ∀ a ∈ l, name a ≠ k := by
  simp [latest?]

theorem latest?_eq_some_iff : latest? name l k = some a ↔ Latest name l k a := by
  rw [latest?, List.find?_eq_some_iff_append]
  constructor
  · rintro ⟨hk, after, before, hl, hn⟩
    refine ⟨by simpa using hk, before.reverse, after.reverse, ?_, ?_⟩
    · rw [← List.reverse_reverse l, hl]
      simp
    · simpa using hn
  · rintro ⟨hk, before, after, rfl, hn⟩
    exact ⟨by simpa using hk, after.reverse, before.reverse, by simp, by simpa using hn⟩

theorem latest?_cons : latest? name (a :: l) k =
    (latest? name l k).or (if name a = k then some a else none) := by
  simp [latest?, List.find?_append, List.find?_singleton]

theorem latest?_map {β : Type} (f : β → α) (l : List β) :
    latest? name (l.map f) k = (latest? (name ∘ f) l k).map f := by
  rw [latest?, ← List.map_reverse, List.find?_map]
  rfl

def replace (name : α → String) (kept : List α) (a : α) : List α :=
  kept.filter (name · != name a) ++ [a]

theorem find?_replace (kept : List α) :
    (replace name kept a).find? (name · == k) =
      if name a = k then some a else kept.find? (name · == k) := by
  rw [replace, List.find?_append, List.find?_singleton]
  by_cases h : name a = k
  · subst h
    have hn : (kept.filter (name · != name a)).find? (name · == name a) = none := by simp
    simp [hn]
  · have hk : (fun b => decide ((name b != name a) = true ∧ (name b == k) = true)) =
        (name · == k) := by
      funext b
      by_cases hb : name b = k
      · simp [hb, Ne.symm h]
      · simp [hb]
    rw [List.find?_filter, hk]
    simp [h]

theorem find?_foldl_replace (kept l : List α) :
    (l.foldl (replace name) kept).find? (name · == k) =
      (latest? name l k).or (kept.find? (name · == k)) := by
  induction l generalizing kept with
  | nil => rfl
  | cons a l ih =>
    rw [List.foldl_cons, ih, latest?_cons, find?_replace, Option.or_assoc]
    split <;> rfl

end Latest

/-- A method as it is added to a service: for objects of one type, which refusals call `label`, or
for whatever comes. What its handler does on the way is up to `m`. -/
inductive Entry (m : Type → Type) {ι : Type} (F : Family ι)
  | typed (name : String) (type : ObjectType ι) (label : String)
    (handle : Object F → m (Outcome F))
  | raw (name : String) (handle : Option (Object F) → m (Outcome F)) (stops : Bool := false)

/-- A service as it is registered, with its methods in the order in which they are added. -/
structure Roster (m : Type → Type) {ι : Type} (F : Family ι) where
  name : String
  entries : List (Entry m F)

abbrev Rosters (m : Type → Type) {ι : Type} (F : Family ι) := List (Roster m F)

variable {ι : Type} {F : Family ι} {m : Type → Type}

def Entry.name : Entry m F → String
  | typed name _ _ _ => name
  | raw name _ _ => name

variable [DecidableEq ι]

def Entry.method : Entry Id F → Method F
  | typed name type label handle => .typed name type label handle
  | raw name handle stops => ⟨name, handle, stops⟩

def Roster.service (s : Roster Id F) : Service F :=
  s.entries.foldl (fun service e => service.add e.method) ⟨s.name, []⟩

def Rosters.dispatcher (rosters : Rosters Id F) : Dispatcher F :=
  rosters.foldl (fun d s => d.register s.service) {}

def Entry.run [Monad m] : Entry m F → Option (Object F) → m (Outcome F)
  | typed _ _ label _, none => return .failure (.badRequest s!"expected {label}, got null")
  | typed _ type label handle, some o =>
    if o.type = type then handle o
    else return .failure (.badRequest s!"expected {label}, got another type")
  | raw _ handle _, o? => handle o?

namespace Rosters

omit [DecidableEq ι] in
def entry (rosters : Rosters m F) (key : String) : Except Failure (Entry m F) :=
  match Request.splitKey? key with
  | none => .error (.badRequest s!"malformed method key `{key}`")
  | some (service, method) =>
    match latest? Roster.name rosters service with
    | none => .error ⟨.unknownService, s!"unknown service `{service}`"⟩
    | some s =>
      match latest? Entry.name s.entries method with
      | none => .error ⟨.unknownMethod, s!"service `{service}` has no method `{method}`"⟩
      | some e => .ok e

def answer [Monad m] (g : Registry F) (rosters : Rosters m F) (r : Reader) : m (Response F) :=
  match Request.readKey r with
  | .error e _ => return .err (.badRequest e.message)
  | .ok key r =>
    match g.readObject? r with
    | .error e _ => return .err (.badRequest s!"cannot decode payload for {key}: {e.message}")
    | .ok object? _ =>
      match rosters.entry key with
      | .error f => return .err f
      | .ok e => Outcome.response <$> e.run object?

end Rosters

namespace Request

theorem splitKey?_of_noDot {key : String} (h : '.' ∉ key.toList) : splitKey? key = none := by
  rw [splitKey?, Option.map_eq_none_iff]
  refine Text.cutAt?_of_forall fun c hc => ?_
  rw [beq_eq_false_iff_ne]
  exact fun he => h (he ▸ hc)

theorem exists_of_dot {key : String} (h : '.' ∈ key.toList) :
    ∃ service method, '.' ∉ service.toList ∧ key = service ++ "." ++ method := by
  obtain ⟨left, right, hl, hn⟩ := List.eq_append_cons_of_mem h
  refine ⟨String.ofList left, String.ofList right, by simpa using hn, String.toList_inj.1 ?_⟩
  simpa [String.toList_append] using hl

end Request

theorem Entry.name_method (e : Entry Id F) : e.method.name = e.name := by cases e <;> rfl

theorem Entry.run_method (e : Entry Id F) (o? : Option (Object F)) :
    e.method.run o? = e.run o? := by
  cases e with
  | raw name handle stops => rfl
  | typed name type label handle => cases o? <;> rfl

theorem Roster.name_service (s : Roster Id F) : s.service.name = s.name := by
  have h (service : Service F) (es : List (Entry Id F)) :
      (es.foldl (fun service e => service.add e.method) service).name = service.name := by
    induction es generalizing service with
    | nil => rfl
    | cons e es ih => exact ih _
  exact h _ s.entries

theorem Roster.methods_service (s : Roster Id F) :
    s.service.methods = (s.entries.map Entry.method).foldl (replace Method.name) [] := by
  rw [List.foldl_map]
  exact (List.foldl_hom Service.methods fun _ _ => rfl).symm

theorem Rosters.services_dispatcher (rosters : Rosters Id F) :
    rosters.dispatcher.services = (rosters.map Roster.service).foldl (replace Service.name) [] := by
  rw [List.foldl_map]
  exact (List.foldl_hom Dispatcher.services fun _ _ => rfl).symm

theorem Roster.method?_service (s : Roster Id F) (name : String) :
    s.service.method? name = (latest? Entry.name s.entries name).map Entry.method := by
  have hn : Method.name ∘ Entry.method = (Entry.name : Entry Id F → String) :=
    funext Entry.name_method
  rw [Service.method?, s.methods_service, find?_foldl_replace, List.find?_nil, Option.or_none,
    latest?_map, hn]

theorem Rosters.service?_dispatcher (rosters : Rosters Id F) (name : String) :
    rosters.dispatcher.service? name = (latest? Roster.name rosters name).map Roster.service := by
  have hn : Service.name ∘ Roster.service = (Roster.name : Roster Id F → String) :=
    funext Roster.name_service
  rw [Dispatcher.service?, rosters.services_dispatcher, find?_foldl_replace, List.find?_nil,
    Option.or_none, latest?_map, hn]

theorem Rosters.method_dispatcher (rosters : Rosters Id F) (key : String) :
    rosters.dispatcher.method key = (rosters.entry key).map Entry.method := by
  rw [Dispatcher.method, Rosters.entry]
  cases Request.splitKey? key with
  | none => rfl
  | some names =>
    obtain ⟨service, method⟩ := names
    dsimp only
    rw [rosters.service?_dispatcher]
    cases latest? Roster.name rosters service with
    | none => rfl
    | some s =>
      dsimp only [Option.map_some]
      rw [s.method?_service]
      cases latest? Entry.name s.entries method <;> rfl

theorem Rosters.response_answer (g : Registry F) (rosters : Rosters Id F) (maxFrame : Nat)
    (r : Reader) : (Host.answer ⟨g, rosters.dispatcher, maxFrame⟩ r).1.response =
      rosters.answer g r := by
  rw [Host.answer, Rosters.answer]
  cases Request.readKey r with
  | error e r => rfl
  | ok key r =>
    dsimp only
    cases g.readObject? r with
    | error e r => rfl
    | ok o? r =>
      dsimp only
      rw [Dispatcher.call, rosters.method_dispatcher]
      cases rosters.entry key with
      | error f => rfl
      | ok e => exact congrArg Outcome.response (e.run_method o?)

/-- What a payload comes to: a failure, or what one handler makes of the object. -/
inductive Verdict (m : Type → Type) {ι : Type} (F : Family ι)
  | refused (f : Failure)
  | handled (outcome : m (Outcome F))

def Verdict.response [Monad m] : Verdict m F → m (Response F)
  | refused f => return .err f
  | handled outcome => Outcome.response <$> outcome

/-- What comes of a key and an object, at the first stage that fails or after the last. -/
inductive Routes (rosters : Rosters m F) : String → Option (Object F) → Verdict m F → Prop
  | noDot {key : String} {o? : Option (Object F)} (hk : '.' ∉ key.toList) :
    Routes rosters key o? (.refused (.badRequest s!"malformed method key `{key}`"))
  | unknownService {service method : String} {o? : Option (Object F)}
    (hk : '.' ∉ service.toList) (hs : ∀ s ∈ rosters, s.name ≠ service) :
    Routes rosters (service ++ "." ++ method) o?
      (.refused ⟨.unknownService, s!"unknown service `{service}`"⟩)
  | unknownMethod {service method : String} {o? : Option (Object F)} {s : Roster m F}
    (hk : '.' ∉ service.toList) (hs : Latest Roster.name rosters service s)
    (he : ∀ e ∈ s.entries, e.name ≠ method) :
    Routes rosters (service ++ "." ++ method) o?
      (.refused ⟨.unknownMethod, s!"service `{service}` has no method `{method}`"⟩)
  | noObject {service method label : String} {s : Roster m F} {type : ObjectType ι}
    {handle : Object F → m (Outcome F)}
    (hk : '.' ∉ service.toList) (hs : Latest Roster.name rosters service s)
    (he : Latest Entry.name s.entries method (.typed method type label handle)) :
    Routes rosters (service ++ "." ++ method) none
      (.refused (.badRequest s!"expected {label}, got null"))
  | otherType {service method label : String} {o : Object F} {s : Roster m F} {type : ObjectType ι}
    {handle : Object F → m (Outcome F)}
    (hk : '.' ∉ service.toList) (hs : Latest Roster.name rosters service s)
    (he : Latest Entry.name s.entries method (.typed method type label handle))
    (ho : o.type ≠ type) :
    Routes rosters (service ++ "." ++ method) (some o)
      (.refused (.badRequest s!"expected {label}, got another type"))
  | typed {service method label : String} {o : Object F} {s : Roster m F} {type : ObjectType ι}
    {handle : Object F → m (Outcome F)}
    (hk : '.' ∉ service.toList) (hs : Latest Roster.name rosters service s)
    (he : Latest Entry.name s.entries method (.typed method type label handle))
    (ho : o.type = type) :
    Routes rosters (service ++ "." ++ method) (some o) (.handled (handle o))
  | raw {service method : String} {o? : Option (Object F)} {s : Roster m F} {stops : Bool}
    {handle : Option (Object F) → m (Outcome F)}
    (hk : '.' ∉ service.toList) (hs : Latest Roster.name rosters service s)
    (he : Latest Entry.name s.entries method (.raw method handle stops)) :
    Routes rosters (service ++ "." ++ method) o? (.handled (handle o?))

/-- What comes of what the reader reads. Nothing counts but the key and the object: neither what
follows them nor, as long as one of them cannot be read, which services there are. -/
inductive Decides (g : Registry F) (rosters : Rosters m F) (r : Reader) : Verdict m F → Prop
  | noKey {e : Error} {r' : Reader} (hk : Request.readKey r = .error e r') :
    Decides g rosters r (.refused (.badRequest e.message))
  | badObject {key : String} {r' r'' : Reader} {e : Wire.Error}
    (hk : Request.readKey r = .ok key r') (ho : g.readObject? r' = .error e r'') :
    Decides g rosters r
      (.refused (.badRequest s!"cannot decode payload for {key}: {e.message}"))
  | routed {key : String} {r' r'' : Reader} {o? : Option (Object F)} {v : Verdict m F}
    (hk : Request.readKey r = .ok key r') (ho : g.readObject? r' = .ok o? r'')
    (hv : Routes rosters key o? v) : Decides g rosters r v

def Entry.verdict : Entry m F → Option (Object F) → Verdict m F
  | typed _ _ label _, none => .refused (.badRequest s!"expected {label}, got null")
  | typed _ type label handle, some o =>
    if o.type = type then .handled (handle o)
    else .refused (.badRequest s!"expected {label}, got another type")
  | raw _ handle _, o? => .handled (handle o?)

def Rosters.verdict (rosters : Rosters m F) (key : String) (o? : Option (Object F)) :
    Verdict m F :=
  match rosters.entry key with
  | .error f => .refused f
  | .ok e => e.verdict o?

theorem Entry.response_verdict [Monad m] [LawfulMonad m] (e : Entry m F) (o? : Option (Object F)) :
    (e.verdict o?).response = Outcome.response <$> e.run o? := by
  cases e with
  | raw name handle stops => rfl
  | typed name type label handle =>
    cases o? with
    | none => simp [Entry.run, Entry.verdict, Verdict.response, Outcome.response]
    | some o =>
      rw [Entry.run, Entry.verdict]
      split
      · rfl
      · simp [Verdict.response, Outcome.response]

section

variable {rosters : Rosters m F} {key service method : String} {o? : Option (Object F)}

omit [DecidableEq ι] in
theorem Rosters.entry_of_noDot (hk : '.' ∉ key.toList) :
    rosters.entry key = .error (.badRequest s!"malformed method key `{key}`") := by
  rw [entry, Request.splitKey?_of_noDot hk]

omit [DecidableEq ι] in
theorem Rosters.entry_dot (hk : '.' ∉ service.toList) :
    rosters.entry (service ++ "." ++ method) =
      match latest? Roster.name rosters service with
      | none => .error ⟨.unknownService, s!"unknown service `{service}`"⟩
      | some s =>
        match latest? Entry.name s.entries method with
        | none => .error ⟨.unknownMethod, s!"service `{service}` has no method `{method}`"⟩
        | some e => .ok e := by
  rw [entry, Request.splitKey?_dot hk]

theorem Rosters.verdict_of_latest (hk : '.' ∉ service.toList) {s : Roster m F} {e : Entry m F}
    (hs : Latest Roster.name rosters service s) (he : Latest Entry.name s.entries method e) :
    rosters.verdict (service ++ "." ++ method) o? = e.verdict o? := by
  rw [verdict, entry_dot hk, latest?_eq_some_iff.2 hs]
  dsimp only
  rw [latest?_eq_some_iff.2 he]

theorem Routes.eq_verdict {v : Verdict m F} (hv : Routes rosters key o? v) :
    v = rosters.verdict key o? := by
  cases hv with
  | noDot hk => rw [Rosters.verdict, Rosters.entry_of_noDot hk]
  | unknownService hk hs => rw [Rosters.verdict, Rosters.entry_dot hk, latest?_eq_none_iff.2 hs]
  | unknownMethod hk hs he =>
    rw [Rosters.verdict, Rosters.entry_dot hk, latest?_eq_some_iff.2 hs]
    dsimp only
    rw [latest?_eq_none_iff.2 he]
  | noObject hk hs he => rw [Rosters.verdict_of_latest hk hs he, Entry.verdict]
  | otherType hk hs he ho =>
    rw [Rosters.verdict_of_latest hk hs he, Entry.verdict, if_neg ho]
  | typed hk hs he ho => rw [Rosters.verdict_of_latest hk hs he, Entry.verdict, if_pos ho]
  | raw hk hs he => rw [Rosters.verdict_of_latest hk hs he, Entry.verdict]

theorem routes_of_latest (hk : '.' ∉ service.toList) {s : Roster m F} {e : Entry m F}
    (hs : Latest Roster.name rosters service s) (he : Latest Entry.name s.entries method e) :
    Routes rosters (service ++ "." ++ method) o? (e.verdict o?) := by
  obtain rfl := he.name_eq
  cases e with
  | raw name handle stops => exact .raw hk hs he
  | typed name type label handle =>
    cases o? with
    | none => exact .noObject hk hs he
    | some o =>
      rw [Entry.verdict]
      split
      · next ho => exact .typed hk hs he ho
      · next ho => exact .otherType hk hs he ho

theorem Rosters.routes_verdict (rosters : Rosters m F) (key : String) (o? : Option (Object F)) :
    Routes rosters key o? (rosters.verdict key o?) := by
  by_cases hd : '.' ∈ key.toList
  · obtain ⟨service, method, hk, rfl⟩ := Request.exists_of_dot hd
    cases hs : latest? Roster.name rosters service with
    | none =>
      rw [verdict, entry_dot hk, hs]
      exact .unknownService hk (latest?_eq_none_iff.1 hs)
    | some s =>
      have hs' := latest?_eq_some_iff.1 hs
      cases he : latest? Entry.name s.entries method with
      | none =>
        rw [verdict, entry_dot hk, hs]
        dsimp only
        rw [he]
        exact .unknownMethod hk hs' (latest?_eq_none_iff.1 he)
      | some e =>
        have he' := latest?_eq_some_iff.1 he
        rw [verdict_of_latest hk hs' he']
        exact routes_of_latest hk hs' he'
  · rw [verdict, entry_of_noDot hd]
    exact .noDot hd

end

theorem Rosters.decided [Monad m] [LawfulMonad m] (g : Registry F) (rosters : Rosters m F)
    (r : Reader) :
    ∃ v, Decides g rosters r v ∧ (∀ v', Decides g rosters r v' → v' = v) ∧
      rosters.answer g r = v.response := by
  rw [answer]
  -- The two reads say which constructor a decision has, so that two decisions agree.
  cases hk : Request.readKey r with
  | error e r' =>
    refine ⟨_, .noKey hk, fun v' hv => ?_, rfl⟩
    cases hv with
    | noKey hk' =>
      cases hk.symm.trans hk'
      rfl
    | badObject hk' | routed hk' => cases hk.symm.trans hk'
  | ok key r' =>
    dsimp only
    cases ho : g.readObject? r' with
    | error e r'' =>
      refine ⟨_, .badObject hk ho, fun v' hv => ?_, rfl⟩
      cases hv with
      | noKey hk' => cases hk.symm.trans hk'
      | badObject hk' ho' =>
        cases hk.symm.trans hk'
        cases ho.symm.trans ho'
        rfl
      | routed hk' ho' =>
        cases hk.symm.trans hk'
        cases ho.symm.trans ho'
    | ok o? r'' =>
      refine ⟨_, .routed hk ho (rosters.routes_verdict key o?), fun v' hv => ?_, ?_⟩
      · cases hv with
        | noKey hk' => cases hk.symm.trans hk'
        | badObject hk' ho' =>
          cases hk.symm.trans hk'
          cases ho.symm.trans ho'
        | routed hk' ho' hv =>
          cases hk.symm.trans hk'
          cases ho.symm.trans ho'
          exact hv.eq_verdict
      · rw [verdict]
        cases rosters.entry key with
        | error f => rfl
        | ok e => exact (e.response_verdict o?).symm

theorem Request.readKey_eq_ok_iff {key : String} {r r' : Reader} :
    readKey r = .ok key r' ↔ Read.text? r = .ok (some key) r' := by
  rw [readKey]
  cases h : Read.text? r with
  | error e s => simp [bind_of_error (ofWire_of_error h)]
  | ok key? s =>
    rw [bind_of_ok (ofWire_of_ok h)]
    cases key? with
    | none => exact ⟨(nomatch ·), (nomatch ·)⟩
    | some k =>
      constructor
      · intro he
        cases he
        rfl
      · intro he
        cases he
        rfl

theorem Request.exists_readKey_iff {key : String} {payload : List UInt8} {pool : Option Pool} :
    (∃ r, readKey (.new payload pool) = .ok key r) ↔
      (Utf8.encode key).length ≤ maxLength ∧ Scalar.bytes .string key <+: payload := by
  constructor
  · rintro ⟨r, hr⟩
    obtain ⟨_, hb, hl, rfl⟩ := Read.yields_text? _ _ _ (readKey_eq_ok_iff.1 hr)
    exact ⟨hl, r.rest, hb.symm⟩
  · rintro ⟨hl, rest, rfl⟩
    obtain ⟨pool', hr⟩ := (Read.takes_text?_some hl).whole 0 rest pool
    exact ⟨_, readKey_eq_ok_iff.2 hr⟩

theorem Rosters.answer_of_read [Monad m] {g : Registry F} (rosters : Rosters m F) {key : String}
    {r r' r'' : Reader} {o? : Option (Object F)} (hk : Request.readKey r = .ok key r')
    (ho : g.readObject? r' = .ok o? r'') :
    rosters.answer g r =
      match rosters.entry key with
      | .error f => return .err f
      | .ok e => Outcome.response <$> e.run o? := by
  rw [answer, hk]
  dsimp only
  rw [ho]

omit [DecidableEq ι] in
theorem exists_read_append {g : Registry F} (hg : ∀ h ∈ g.handlers, Read.Delimits h.read)
    {payload : List UInt8} {pool : Option Pool} {key : String} {r r' : Reader}
    {o? : Option (Object F)} (hk : Request.readKey (.new payload pool) = .ok key r)
    (ho : g.readObject? r = .ok o? r') :
    ∃ taken, payload = taken ++ r'.rest ∧ ∀ rest, ∃ s s',
      Request.readKey (.new (taken ++ rest) pool) = .ok key s ∧ g.readObject? s = .ok o? s' := by
  rw [Request.readKey_eq_ok_iff] at hk
  obtain ⟨left, hl, htk⟩ := Read.closed_delimits.text? _ _ _ hk
  obtain ⟨right, hr, hto⟩ := Registry.closed_readObject? Read.closed_delimits hg _ _ _ ho
  refine ⟨left ++ right, by rw [List.append_assoc, ← hr]; exact hl, fun rest => ?_⟩
  -- The pool may differ after the key, but what a read takes it takes with any pool.
  obtain ⟨pool', hk'⟩ := htk.whole 0 (right ++ rest) pool
  obtain ⟨pool'', ho'⟩ := hto.whole (0 + left.length) rest pool'
  rw [← List.append_assoc] at hk'
  exact ⟨_, _, Request.readKey_eq_ok_iff.2 hk', ho'⟩

/-- A host answers a payload by the services and methods that were registered last under their
names. Whatever handlers do on the way, the answer is that of the first stage that fails, and then
none of them does anything; or it is what one run of one handler comes to. What follows the object
has no part in it. -/
theorem Host.answer_decided (g : Registry F) (payload : List UInt8) (pool : Option Pool) :
    (∀ (rosters : Rosters Id F) (maxFrame : Nat),
      (Host.answer ⟨g, rosters.dispatcher, maxFrame⟩ (.new payload pool)).1.response =
        rosters.answer g (.new payload pool)) ∧
    (∀ (m : Type → Type) [Monad m] [LawfulMonad m] (rosters : Rosters m F), ∃ v,
      Decides g rosters (.new payload pool) v ∧
      (∀ v', Decides g rosters (.new payload pool) v' → v' = v) ∧
      rosters.answer g (.new payload pool) = v.response) ∧
    (∀ key, (∃ r, Request.readKey (.new payload pool) = .ok key r) ↔
      (Utf8.encode key).length ≤ maxLength ∧ Scalar.bytes .string key <+: payload) ∧
    ∀ key r o? r', Request.readKey (.new payload pool) = .ok key r → g.readObject? r = .ok o? r' →
      (∀ payload' s s', Request.readKey (.new payload' pool) = .ok key s →
        g.readObject? s = .ok o? s' → ∀ (m : Type → Type) [Monad m] (rosters : Rosters m F),
          rosters.answer g (.new payload' pool) = rosters.answer g (.new payload pool)) ∧
      ((∀ h ∈ g.handlers, Read.Delimits h.read) → ∃ taken, payload = taken ++ r'.rest ∧
        ∀ rest (m : Type → Type) [Monad m] (rosters : Rosters m F),
          rosters.answer g (.new (taken ++ rest) pool) = rosters.answer g (.new payload pool)) := by
  refine ⟨fun rosters maxFrame => rosters.response_answer g maxFrame _,
    fun m _ _ rosters => rosters.decided g _, fun key => Request.exists_readKey_iff,
    fun key r o? r' hk ho => ⟨fun payload' s s' hk' ho' m _ rosters => ?_, fun hg => ?_⟩⟩
  · rw [rosters.answer_of_read hk ho, rosters.answer_of_read hk' ho']
  · obtain ⟨taken, hp, ht⟩ := exists_read_append hg hk ho
    refine ⟨taken, hp, fun rest m _ rosters => ?_⟩
    obtain ⟨s, s', hk', ho'⟩ := ht rest
    rw [rosters.answer_of_read hk ho, rosters.answer_of_read hk' ho']

def counting : Rosters (StateM Nat) chain :=
  [⟨"Echo", [.typed "Say" (.scalar .int32) "i32" fun o => do
      modify (· + 1)
      return .reply (some o)]⟩,
    ⟨"Echo", [.raw "Say.Twice" (fun _ => do
        modify (· + 1)
        return .crash none),
      .raw "Say.Twice" fun o? => do
        modify (· + 1)
        return .reply o?]⟩]

def spoken : List UInt8 :=
  [14, 0, 0, 0, 69, 99, 104, 111, 46, 83, 97, 121, 46, 84, 119, 105, 99, 101, 1, 0, 0, 0, 5, 0, 0, 0]

theorem answer_decided_counting :
    ∃ v, Decides .new counting (.new spoken) v ∧
      (v.response : StateM Nat (Response chain)).run 0 = (.ok (some (.scalar .int32 5)), 1) ∧
      ∀ rest, counting.answer .new (.new (spoken ++ rest)) = counting.answer .new (.new spoken) := by
  obtain ⟨-, hd, -, ht⟩ := Host.answer_decided (F := chain) .new spoken none
  obtain ⟨v, hv, -, ha⟩ := hd (StateM Nat) counting
  refine ⟨v, hv, ?_, ?_⟩
  · rw [← ha]
    rfl
  · obtain ⟨taken, hp, hr⟩ := (ht "Echo.Say.Twice" _ _ _ rfl rfl).2 Registry.Reachable.new.delimits
    obtain rfl : spoken = taken := hp.trans (List.append_nil taken)
    exact fun rest => hr rest _ counting

end WireProtocol.Rpc
