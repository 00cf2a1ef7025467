import Mathlib.Data.List.Nodup
import WireProtocol.Proofs.Target.Filing

namespace WireProtocol.Target

open Schema (Definition)
open Text (snakeCase)

def FilesApart (key : String → String) (taken : List String) (d : Definition) (o : Options) :
    Prop :=
  (o.serialization = true → (d.messages.map fun m => key m.name).Nodup ∧
    ∀ m ∈ d.messages, key m.name ∉ taken) ∧
  (o.clientServer = true → (d.services.map fun s => key s.name).Nodup ∧
    ∀ s ∈ d.services, key s.name ∉ taken)

namespace Filing

/-- Units lie at the same path exactly when they are of the same kind, for names with one key; the
units that support them lie where names with the taken keys would be. -/
structure Keyed (f : Filing) (key : String → String) (taken : List String) : Prop where
  serializer : ∀ {name name'}, f.serializer name = f.serializer name' ↔ key name = key name'
  service : ∀ {name}, (f.service name).Nodup
  services : ∀ {name name'}, (f.service name).Disjoint (f.service name') ↔ key name ≠ key name'
  messages : f.messages ≠ f.registry ∧
    ∀ {name}, f.messages ≠ f.serializer name ∧ f.messages ∉ f.service name
  registry : ∀ {name}, f.registry ≠ f.serializer name ∧ f.registry ∉ f.service name
  apart : ∀ {name name'}, f.serializer name ∉ f.service name'
  support : ∀ d o, (f.support d o).Nodup ∧ f.messages ∉ f.support d o ∧ f.registry ∉ f.support d o
  serializerTaken : ∀ {d : Definition} {o : Options}, o.serialization = true → ∀ m ∈ d.messages,
    (f.serializer m.name ∈ f.support d o ↔ key m.name ∈ taken)
  serviceTaken : ∀ {d : Definition} {o : Options}, o.clientServer = true → ∀ s ∈ d.services,
    ((f.service s.name).Disjoint (f.support d o) ↔ key s.name ∉ taken)

variable {f : Filing} {key : String → String} {taken : List String} {d : Definition} {o : Options}

namespace Keyed

variable (h : f.Keyed key taken)

include h

theorem nodup_messageUnits : (f.messageUnits d o).Nodup ↔
    (o.serialization = true → (d.messages.map fun m => key m.name).Nodup) := by
  have hm : (d.messages.map fun m => f.serializer m.name).Nodup ↔
      (d.messages.map fun m => key m.name).Nodup := by
    simp only [List.Nodup, List.pairwise_map, ne_eq, h.serializer]
  rw [messageUnits]
  split
  · next ho =>
    rw [List.nodup_append', hm]
    have hr : (d.messages.map fun m => f.serializer m.name).Disjoint
        (if o.factories then [f.registry] else []) := by
      split <;> simp [h.registry.1.symm]
    have hn : (if o.factories then [f.registry] else []).Nodup := by split <;> simp
    simp [ho, hr, hn]
  · next ho => simp [ho]

theorem nodup_serviceUnits : (f.serviceUnits d o).Nodup ↔
    (o.clientServer = true → (d.services.map fun s => key s.name).Nodup) := by
  rw [serviceUnits]
  split
  · next ho =>
    rw [List.nodup_flatMap, and_iff_right fun (s : Schema.Service) _ => h.service,
      forall_prop_of_true ho, List.Nodup, List.pairwise_map]
    exact List.Pairwise.iff fun _ _ => h.services
  · next ho => simp [ho]

theorem disjoint_messageUnits_support : (f.messageUnits d o).Disjoint (f.support d o) ↔
    (o.serialization = true → ∀ m ∈ d.messages, key m.name ∉ taken) := by
  simp only [List.disjoint_left, mem_messageUnits]
  constructor
  · intro hd ho m hm hk
    exact hd ⟨ho, .inl ⟨m, hm, rfl⟩⟩ ((h.serializerTaken ho m hm).2 hk)
  · rintro hk _ ⟨ho, ⟨m, hm, rfl⟩ | ⟨-, rfl⟩⟩ hn
    · exact hk ho m hm ((h.serializerTaken ho m hm).1 hn)
    · exact (h.support d o).2.2 hn

theorem disjoint_serviceUnits_support : (f.serviceUnits d o).Disjoint (f.support d o) ↔
    (o.clientServer = true → ∀ s ∈ d.services, key s.name ∉ taken) := by
  simp only [List.disjoint_left, mem_serviceUnits]
  constructor
  · intro hd ho s hs hk
    exact (h.serviceTaken ho s hs).1 (List.disjoint_left.2 fun _ hn => hd ⟨ho, s, hs, hn⟩) hk
  · rintro hk names ⟨ho, s, hs, hn⟩
    exact List.disjoint_left.1 ((h.serviceTaken ho s hs).2 (hk ho s hs)) hn

theorem disjoint_messageUnits_serviceUnits :
    (f.messageUnits d o).Disjoint (f.serviceUnits d o) := by
  simp only [List.disjoint_left, mem_messageUnits, mem_serviceUnits]
  rintro _ ⟨-, ⟨m, -, rfl⟩ | ⟨-, rfl⟩⟩ ⟨-, s, -, hn⟩
  · exact h.apart hn
  · exact h.registry.2 hn

theorem messages_notMem : f.messages ∉ f.messageUnits d o ∧ f.messages ∉ f.serviceUnits d o := by
  rw [mem_messageUnits, mem_serviceUnits]
  constructor
  · rintro ⟨-, ⟨m, -, he⟩ | ⟨-, he⟩⟩
    · exact h.messages.2.1 he
    · exact h.messages.1 he
  · rintro ⟨-, s, -, hn⟩
    exact h.messages.2.2 hn

theorem nodup_all_iff : (f.all d o).Nodup ↔ FilesApart key taken d o := by
  obtain ⟨hp, hmp, -⟩ := h.support d o
  obtain ⟨hms, hmc⟩ := @messages_notMem _ _ _ d o h
  rw [all, main, List.cons_append, List.nodup_cons, List.nodup_append', List.nodup_append',
    List.disjoint_append_left, h.nodup_messageUnits, h.nodup_serviceUnits,
    h.disjoint_messageUnits_support, h.disjoint_serviceUnits_support, FilesApart,
    and_iff_right (by simp [hms, hmc, hmp]), and_iff_right hp,
    and_iff_left h.disjoint_messageUnits_serviceUnits, and_and_and_comm, ← imp_and, ← imp_and]

end Keyed

end Filing

theorem append_ne_append {name name' ending ending' : String}
    (h : ¬ ending.toList <:+ ending'.toList ∧ ¬ ending'.toList <:+ ending.toList) :
    name ++ ending ≠ name' ++ ending' := by
  intro he
  have hl := congrArg String.toList he
  rw [String.toList_append, String.toList_append] at hl
  have hs : ending.toList <:+ name'.toList ++ ending'.toList := ⟨name.toList, hl⟩
  exact (List.suffix_or_suffix_of_suffix hs (List.suffix_append _ _)).elim h.1 h.2

theorem keyed_rust : rustFiling.Keyed snakeCase ["mod"] :=
  have hne : ∀ a b : String, a ++ "_service.rs" ≠ b ++ "_dispatch.rs" := fun _ _ =>
    append_ne_append (by decide)
  have hmod : ∀ a : String, a ++ ".rs" = "mod.rs" ↔ a = "mod" := fun a => by
    rw [← @String.append_left_inj a "mod" ".rs"]
    rfl
  have hserver : ∀ a : String, a ++ "_service.rs" ≠ "mod.rs" ∧ a ++ "_dispatch.rs" ≠ "mod.rs" :=
    fun a => ⟨@append_ne_append a "" _ "mod.rs" (by decide),
      @append_ne_append a "" _ "mod.rs" (by decide)⟩
  { serializer := by simp [rustFiling]
    service := by simp [rustFiling, Filing.service, hne]
    services := fun {name name'} => by
      simp [rustFiling, Filing.service, hne, fun a b => (hne b a).symm,
        @eq_comm _ (snakeCase name) (snakeCase name')]
    messages := by simp [rustFiling, Filing.service]
    registry := by simp [rustFiling, Filing.service]
    apart := by simp [rustFiling, Filing.service]
    support := fun d o => by
      simp only [rustFiling]
      split <;> split <;> simp
    serializerTaken := fun {d o} ho m hm => by
      simp [rustFiling, ho, List.ne_nil_of_mem hm, hmod]
    serviceTaken := fun {d o} ho s hs => by
      simp [rustFiling, Filing.service, ho, List.ne_nil_of_mem hs, @eq_comm _ "mod.rs",
        hmod, hserver] }

theorem keyed_cpp : cppFiling.Keyed snakeCase [] :=
  have hne : ∀ a b : String, "i_" ++ a ++ "_service.h" ≠ b ++ "_service_base.h" := fun a _ =>
    append_ne_append (by decide)
  have hregistry : ∀ a : String, a ++ "_serializer.h" ≠ "serializer_registry.h" := fun a =>
    @append_ne_append a "" _ "serializer_registry.h" (by decide)
  { serializer := by simp [cppFiling]
    service := by simp [cppFiling, Filing.service, hne]
    services := fun {name name'} => by
      simp [cppFiling, Filing.service, hne, fun a b => (hne b a).symm,
        @eq_comm _ (snakeCase name) (snakeCase name')]
    messages := by simp [cppFiling, Filing.service]
    registry := by simp [cppFiling, Filing.service, fun a => (hregistry a).symm]
    apart := by simp [cppFiling, Filing.service]
    support := fun d o => by simp [cppFiling]
    serializerTaken := fun {d o} ho m hm => by simp [cppFiling]
    serviceTaken := fun {d o} ho s hs => by simp [cppFiling, Filing.service] }

theorem keyed_cSharp : cSharpFiling.Keyed id [] :=
  have hne : ∀ a b : String, "I" ++ a ++ "Service.cs" ≠ b ++ "ServiceBase" ++ ".cs" := fun a b => by
    rw [@String.append_assoc b]
    exact append_ne_append (by decide)
  have hregistry : ∀ a : String, a ++ "Serializer" ++ ".cs" ≠ "SerializerRegistry.cs" := fun a => by
    rw [String.append_assoc]
    exact @append_ne_append a "" _ "SerializerRegistry.cs" (by decide)
  { serializer := by simp [cSharpFiling]
    service := by simp [cSharpFiling, Filing.service, hne]
    services := fun {name name'} => by
      simp [cSharpFiling, Filing.service, hne, fun a b => (hne b a).symm, @eq_comm _ name name']
    messages := by simp [cSharpFiling, Filing.service]
    registry := by simp [cSharpFiling, Filing.service, fun a => (hregistry a).symm]
    apart := by simp [cSharpFiling, Filing.service]
    support := fun d o => by simp [cSharpFiling]
    serializerTaken := fun {d o} ho m hm => by simp [cSharpFiling]
    serviceTaken := fun {d o} ho s hs => by simp [cSharpFiling] }

end WireProtocol.Target
