import WireProtocol.Proofs.Target.Functions

namespace WireProtocol.Target

open Rust (isNameChar)

structure Mention where
  path : List String
  next : Option Char
  deriving DecidableEq, Repr

/-- The dotted names of the rest of a line, given the parts before it and the part in progress.
Parts may be empty. -/
def mentionsFrom (path : List String) (part : List Char) : List Char → List Mention
  | [] => [⟨path ++ [String.ofList part], none⟩]
  | c :: rest =>
    if isNameChar c then mentionsFrom path (part ++ [c]) rest
    else if c = '.' then mentionsFrom (path ++ [String.ofList part]) [] rest
    else ⟨path ++ [String.ofList part], some c⟩ :: mentionsFrom [] [] rest

@[simp] def mentions (line : String) : List Mention := mentionsFrom [] [] line.toList

namespace Mention

@[simp] def member? (subject : String) (m : Mention) : Option String :=
  match m.path with
  | s :: name :: _ => if s = subject then some name else none
  | _ => none

@[simp] def call? (m : Mention) : Option String :=
  if m.next = some '(' ∨ m.next = some '<' ∨ m.next = some ':' then m.path.getLast? else none

end Mention

@[simp] def argument? (call : List String) : List Mention → Option String
  | m :: n :: rest =>
    if m.path = call ∧ m.next = some '(' then n.path.getLast? else argument? call (n :: rest)
  | _ => none

@[simp] def members (subject : String) (ms : List Mention) : List String :=
  (ms.filterMap (·.member? subject)).eraseDups

@[simp] def calls (table : List (String × String)) (ms : List Mention) : List String :=
  ms.filterMap fun m => m.call?.bind (table.lookup ·)

@[simp] theorem eraseDups_singleton (name : String) : [name].eraseDups = [name] := by
  simp [List.eraseDups_cons]

@[simp] theorem eraseDups_pair (name : String) : [name, name].eraseDups = [name] := by
  simp [List.eraseDups_cons]

section

variable {path : List String} {part : List Char} {c : Char}

@[simp] theorem mentionsFrom_nil :
    mentionsFrom path part [] = [⟨path ++ [String.ofList part], none⟩] := rfl

@[simp] theorem mentionsFrom_part (h : isNameChar c = true) (rest : List Char) :
    mentionsFrom path part (c :: rest) = mentionsFrom path (part ++ [c]) rest := by
  rw [mentionsFrom, if_pos h]

@[simp] theorem mentionsFrom_dot (rest : List Char) :
    mentionsFrom path part ('.' :: rest) =
      mentionsFrom (path ++ [String.ofList part]) [] rest := rfl

@[simp] theorem mentionsFrom_cut (h : isNameChar c = false ∧ c ≠ '.') (rest : List Char) :
    mentionsFrom path part (c :: rest) =
      ⟨path ++ [String.ofList part], some c⟩ :: mentionsFrom [] [] rest := by
  rw [mentionsFrom, h.1, if_neg Bool.false_ne_true, if_neg h.2]

def Named (name : String) : Prop := ∀ c ∈ name.toList, isNameChar c = true

instance (name : String) : Decidable (Named name) :=
  List.decidableBAll (fun c => isNameChar c = true) name.toList

theorem mentionsFrom_name {name : String} (h : Named name) (rest : List Char) :
    mentionsFrom path part (name.toList ++ rest) =
      mentionsFrom path (part ++ name.toList) rest := by
  rw [Named] at h
  generalize name.toList = cs at h ⊢
  induction cs generalizing part with
  | nil => rw [List.nil_append, List.append_nil]
  | cons c cs ih =>
    rw [List.forall_mem_cons] at h
    rw [List.cons_append, mentionsFrom_part h.1, ih h.2, List.append_assoc, List.singleton_append]

end

namespace Named

variable {name : String}

theorem flat (h : Named name) : '\n' ∉ name.toList := fun hm => absurd (h _ hm) (by decide)

theorem append {ending : String} (h : Named name) (h' : Named ending) : Named (name ++ ending) := by
  rw [Named, String.toList_append]
  exact List.forall_mem_append.2 ⟨h, h'⟩

theorem of_isIdentifierRest (h : ∀ c ∈ name.toList, Text.isIdentifierRest c = true) :
    Named name := fun c hc => by
  rw [isNameChar, h c hc]
  rfl

theorem of_isIdentifier (h : Text.isIdentifier name.toList = true) : Named name :=
  of_isIdentifierRest (Text.isIdentifierRest_of_isIdentifier h)

theorem snakeCase (h : Text.isIdentifier name.toList = true) : Named (Text.snakeCase name) :=
  of_isIdentifierRest fun _ hc => (Text.lowered_of_mem_snakeCase h hc).1

theorem pascalCase (h : Text.isIdentifier name.toList = true) : Named (Text.pascalCase name) :=
  of_isIdentifierRest fun _ hc => Text.isIdentifierRest_of_mem_pascalCase h hc

theorem toString (n : Nat) : Named (toString n) :=
  of_isIdentifierRest fun c hc => by
    rw [Nat.toString_eq_ofList_toDigits, String.toList_ofList] at hc
    have hd := Nat.isDigit_of_mem_toDigits (by decide) (by decide) hc
    simp [Text.isIdentifierRest, Char.isAlphanum, hd]

end Named

end WireProtocol.Target
