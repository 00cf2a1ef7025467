import WireProtocol.Proofs.Wire.Registration

/-! A pool gets back the masks that it lends. Whatever a write or a read does, and wherever it
fails, what happens to the pool is a row of guards: a mask is lent, further masks may be lent and
given back while it is used, and then it is given back itself. -/

namespace WireProtocol.Wire

variable {ε σ α β ι : Type}

namespace Pool

/-- What the first pool becomes when masks are lent and given back, the later ones first. -/
inductive Guarded : Pool → Pool → Prop
  | none (pool : Pool) : Guarded pool pool
  | guard {pool inner after : Pool} {width : Nat} {mask : Mask}
    (within : Guarded (pool.acquire width).2 inner) (same : mask.width = width)
    (rest : Guarded (inner.release mask) after) : Guarded pool after

theorem Guarded.trans {p q r : Pool} (h : Guarded p q) (h' : Guarded q r) : Guarded p r := by
  induction h with
  | none => exact h'
  | guard within same _ _ ih => exact .guard within same (ih h')

/-- The pools there can be, with how many masks each has lent and how many were given to it. Masks
of no words do not count, since the pool has no part in them. -/
inductive Reached : Pool → (lent given : Nat) → Prop
  | new (config : Config) : Reached (.new config) 0 0
  | acquire {pool : Pool} {lent given width : Nat} (h : Reached pool lent given)
    (hw : width ≠ 0) : Reached (pool.acquire width).2 (lent + 1) given
  | release {pool : Pool} {lent given : Nat} {mask : Mask} (h : Reached pool lent given)
    (hw : mask.width ≠ 0) : Reached (pool.release mask) lent (given + 1)

theorem acquire_zero (pool : Pool) : (pool.acquire 0).2 = pool := rfl

theorem release_zero {pool : Pool} {mask : Mask} (h : mask.width = 0) :
    pool.release mask = pool := if_pos h

theorem accounts_acquire (pool : Pool) {width : Nat} (hw : width ≠ 0) :
    (pool.acquire width).2.allocated + pool.idle.length =
        pool.allocated + (pool.acquire width).2.idle.length + 1 ∧
      (pool.acquire width).2.discarded = pool.discarded := by
  rw [acquire, if_neg hw]
  split
  · next mask hf =>
    have hl := List.length_eraseP_of_mem (List.mem_of_find?_eq_some hf) (List.find?_some hf)
    have hpos := List.length_pos_of_mem (List.mem_of_find?_eq_some hf)
    refine ⟨?_, rfl⟩
    dsimp only
    omega
  · refine ⟨?_, rfl⟩
    dsimp only
    omega

theorem accounts_release (pool : Pool) {mask : Mask} (hw : mask.width ≠ 0) :
    (pool.release mask).idle.length + (pool.release mask).discarded =
        pool.idle.length + pool.discarded + 1 ∧
      (pool.release mask).allocated = pool.allocated := by
  rw [release, if_neg hw]
  split
  · refine ⟨?_, rfl⟩
    simp only [List.length_append, List.length_singleton]
    omega
  · exact ⟨rfl, rfl⟩

theorem Reached.accounts {pool : Pool} {lent given : Nat} (h : Reached pool lent given) :
    pool.idle.length + pool.discarded + lent = pool.allocated + given := by
  induction h with
  | new => rfl
  | @acquire pool lent given width _ hw ih =>
    obtain ⟨ha, hd⟩ := pool.accounts_acquire hw
    omega
  | @release pool lent given mask _ hw ih =>
    obtain ⟨hi, ha⟩ := pool.accounts_release hw
    omega

theorem Guarded.accounts {p q : Pool} (h : Guarded p q) :
    q.idle.length + q.discarded + p.allocated = p.idle.length + p.discarded + q.allocated := by
  induction h with
  | none => rfl
  | @guard pool inner after width mask _ same _ ih ih' =>
    by_cases hw : width = 0
    · rw [release_zero (same.trans hw)] at ih'
      rw [hw, acquire_zero] at ih
      omega
    · obtain ⟨ha, hd⟩ := pool.accounts_acquire hw
      have hm : mask.width ≠ 0 := same ▸ hw
      obtain ⟨hi, hr⟩ := inner.accounts_release hm
      omega

theorem Guarded.reached {p q : Pool} {lent given : Nat} (h : Guarded p q)
    (hp : Reached p lent given) : ∃ n, Reached q (lent + n) (given + n) := by
  induction h generalizing lent given with
  | none => exact ⟨0, hp⟩
  | @guard pool inner after width mask _ same _ ih ih' =>
    by_cases hw : width = 0
    · rw [hw, acquire_zero] at ih
      rw [release_zero (same.trans hw)] at ih'
      obtain ⟨n, h⟩ := ih hp
      obtain ⟨m, h⟩ := ih' h
      exact ⟨n + m, by simpa only [Nat.add_assoc] using h⟩
    · obtain ⟨n, h⟩ := ih (hp.acquire hw)
      obtain ⟨m, h⟩ := ih' (h.release (same ▸ hw))
      refine ⟨1 + n + m, ?_⟩
      simpa only [Nat.add_assoc, Nat.add_comm 1] using h

/-- Every mask that was lent in between has been given back. -/
structure Balanced (before after : Pool) : Prop where
  guarded : Guarded before after
  retained : (after.idle.length - before.idle.length : Int) =
    (after.allocated - before.allocated) - (after.discarded - before.discarded)
  reached : ∀ {lent given}, Reached before lent given → ∃ n, Reached after (lent + n) (given + n)
  outstanding : ∀ {lent given lent' given'}, Reached before lent given →
    Reached after lent' given' → (lent' - given' : Int) = lent - given

theorem Guarded.balanced {p q : Pool} (h : Guarded p q) : Balanced p q where
  guarded := h
  retained := by
    have := h.accounts
    omega
  reached := h.reached
  outstanding hp hq := by
    have := h.accounts
    have := hp.accounts
    have := hq.accounts
    omega

abbrev GuardedOption : Option Pool → Option Pool → Prop := Option.Rel Guarded

theorem GuardedOption.refl : (pool? : Option Pool) → GuardedOption pool? pool?
  | .none => .none
  | .some pool => .some (.none pool)

theorem GuardedOption.trans {p? q? r? : Option Pool} (h : GuardedOption p? q?)
    (h' : GuardedOption q? r?) : GuardedOption p? r? := by
  cases h with
  | none => exact h'
  | some h =>
    cases h' with
    | some h' => exact .some (h.trans h')

theorem GuardedOption.giveBack {pool? inner? : Option Pool} {width : Nat} {mask : Mask}
    (h : GuardedOption (lend pool? width).2 inner?) (hw : mask.width = width) :
    GuardedOption pool? (giveBack inner? mask) := by
  cases pool? with
  | none =>
    cases h with
    | none => exact .none
  | some pool =>
    cases h with
    | some h => exact .some (.guard h hw (.none _))

end Pool

def ending : EStateM.Result ε σ α → σ
  | .ok _ s => s
  | .error _ s => s

def Returns (pool : σ → Option Pool) (m : EStateM ε σ α) : Prop :=
  ∀ s, Pool.GuardedOption (pool s) (pool (ending (m s)))

namespace Returns

variable {pool : σ → Option Pool} {m : EStateM ε σ α}

theorem pure (a : α) : Returns pool (Pure.pure a : EStateM ε σ α) := fun s => .refl (pool s)

theorem throw (e : ε) : Returns pool (throw e : EStateM ε σ α) := fun s => .refl (pool s)

theorem bind {f : α → EStateM ε σ β} (hm : Returns pool m) (hf : ∀ a, Returns pool (f a)) :
    Returns pool (m >>= f) := by
  intro s
  have hs := hm s
  cases hr : m s with
  | ok a s' =>
    rw [hr] at hs
    rw [bind_of_ok hr]
    exact hs.trans (hf a s')
  | error e s' =>
    rw [hr] at hs
    rw [bind_of_error hr]
    exact hs

end Returns

namespace Read

theorem returns_take (n : Nat) : Returns Reader.pool (take n) := by
  intro r
  rw [take]
  split <;> exact .refl r.pool

theorem returns_fillWords (done : List UInt32) (n : Nat) :
    Returns Reader.pool (fillWords done n) :=
  fillWords_of (P := Returns Reader.pool) .pure .bind (returns_take 4) done n

theorem returns_withMask {width : Nat} {use : Mask → Read α}
    (h : ∀ mask, Returns Reader.pool (use mask)) : Returns Reader.pool (withMask width use) := by
  intro r
  have hf := returns_fillWords [] width { r with pool := (Pool.lend r.pool width).2 }
  simp only [withMask]
  split
  · next e r₁ hr =>
    rw [hr] at hf
    exact hf.giveBack (by simp)
  · next words r₁ hr =>
    obtain ⟨_, -, _, hl, rfl, -⟩ := yields_fillWords [] width _ _ _ hr
    rw [hr] at hf
    have hu := hf.trans (h ⟨words⟩ r₁)
    split
    · next hr =>
      rw [hr] at hu
      exact hu.giveBack hl
    · next hr =>
      rw [hr] at hu
      exact hu.giveBack hl

theorem closed_returns : Closed (Returns Reader.pool) where
  pure := .pure
  throw := .throw
  bind := .bind
  take := returns_take
  withMask _ _ := returns_withMask

end Read

namespace Write

theorem returns_put (bytes : List UInt8) : Returns Writer.pool (put bytes) := fun w => .refl w.pool

theorem returns_withMask {width : Nat} {present : List Bool} {use : Mask → Write}
    (h : ∀ mask, Returns Writer.pool (use mask)) :
    Returns Writer.pool (withMask width present use) := by
  have hw (words : List UInt32) : Returns Writer.pool (each u32 words) := by
    induction words with
    | nil => exact .pure _
    | cons word words ih => exact (returns_put _).bind fun _ => ih
  intro w
  have hm := ((hw ((Mask.new width).mark present).words).bind fun _ =>
    h ((Mask.new width).mark present)) { w with pool := (Pool.lend w.pool width).2 }
  simp only [withMask, Pool.lend_fst]
  split
  · next hr =>
    rw [hr] at hm
    exact hm.giveBack (by simp)
  · next hr =>
    rw [hr] at hm
    exact hm.giveBack (by simp)

theorem closed_returns : Closed (Returns Writer.pool) where
  pure := .pure _
  throw := .throw
  bind hm hf := hm.bind fun _ => hf
  put := returns_put
  withMask _ _ _ := returns_withMask

end Write

structure Read.IgnoresPool (m : Read α) : Prop where
  same : ∀ position rest pool, seen Reader.view (m ⟨position, rest, some pool⟩) =
    seen Reader.view (m ⟨position, rest, none⟩)
  balanced : ∀ position rest pool, ∃ pool',
    (ending (m ⟨position, rest, some pool⟩)).pool = some pool' ∧ pool.Balanced pool'

structure Write.IgnoresPool (m : Write) : Prop where
  same : ∀ bytes pool, seen Writer.view (m ⟨bytes, some pool⟩) =
    seen Writer.view (m ⟨bytes, none⟩)
  balanced : ∀ bytes pool, ∃ pool',
    (ending (m ⟨bytes, some pool⟩)).pool = some pool' ∧ pool.Balanced pool'

theorem Pool.GuardedOption.balanced {pool : Pool} {pool? : Option Pool}
    (h : GuardedOption (some pool) pool?) : ∃ pool', pool? = some pool' ∧ pool.Balanced pool' := by
  cases h with
  | some h => exact ⟨_, rfl, h.balanced⟩

theorem Read.ignoresPool {m : Read α} (hd : DependsOn Reader.view m)
    (hr : Returns Reader.pool m) : m.IgnoresPool where
  same _ _ _ := hd _ _ rfl
  balanced position rest pool := (hr ⟨position, rest, some pool⟩).balanced

theorem Write.ignoresPool {m : Write} (hd : DependsOn Writer.view m)
    (hr : Returns Writer.pool m) : m.IgnoresPool where
  same _ _ := hd _ _ rfl
  balanced bytes pool := (hr ⟨bytes, some pool⟩).balanced

variable {F : Family ι}

theorem Record.returns_read (i : ι) : Returns Reader.pool (Record.read (F := F) i) :=
  fun r => Read.closed_returns.readWithin _ i r

variable [DecidableEq ι]

theorem Registry.Reachable.standard {g : Registry F} (hg : g.Reachable) :
    ∀ h ∈ g.handlers, h.Standard := by
  induction hg with
  | new => exact standard_new
  | registerRecord _ hr ih => exact forall_handlers_register ih (.record _) hr

/-- Records, and objects of a registry of records, are written and read with any pool as they are
without one. The pool has back what it lent whether this succeeds or fails. -/
theorem Registry.pool_transparent (F : Family ι) :
    (∀ (i : ι) (r : Record F i), r.write.IgnoresPool) ∧
      (∀ i : ι, (Record.read (F := F) i).IgnoresPool) ∧
      ∀ g : Registry F, g.Reachable →
        (∀ o?, (g.writeObject? o?).IgnoresPool) ∧ g.readObject?.IgnoresPool := by
  refine ⟨fun i r => ?_, fun i => ?_, fun g hg => ⟨fun o? => ?_, ?_⟩⟩
  · exact Write.ignoresPool (Write.closed_dependsOn.record r) (Write.closed_returns.record r)
  · exact Read.ignoresPool (Record.dependsOn_read i) (Record.returns_read i)
  · apply Write.ignoresPool
    · exact closed_writeObject? Write.closed_dependsOn
        (fun h hm => (hg.standard h hm).write Write.closed_dependsOn) o?
    · exact closed_writeObject? Write.closed_returns
        (fun h hm => (hg.standard h hm).write Write.closed_returns) o?
  · apply Read.ignoresPool
    · exact closed_readObject? Read.closed_dependsOn
        fun h hm => (hg.standard h hm).read Read.closed_dependsOn Record.dependsOn_read
    · exact closed_readObject? Read.closed_returns
        fun h hm => (hg.standard h hm).read Read.closed_returns Record.returns_read

def chains : Registry chain := ⟨Registry.builtIns ++ [.record chain ()]⟩

def cutOff (pool? : Option Pool) : Reader :=
  ⟨0, [100, 0, 0, 0, 2, 0, 0, 0, 100, 0, 0, 0, 3, 0], pool?⟩

theorem pool_transparent_chain :
    chains.Reachable ∧
      seen Reader.view (chains.readObject? (cutOff (some ⟨⟨1, 1⟩, [⟨[7]⟩], 1, 0, 0⟩))) =
        .error (.unexpectedEnd 4 2) (12, [3, 0]) ∧
      (ending (chains.readObject? (cutOff (some ⟨⟨1, 1⟩, [⟨[7]⟩], 1, 0, 0⟩)))).pool =
        some ⟨⟨1, 1⟩, [⟨[0]⟩], 2, 1, 1⟩ ∧
      Pool.Balanced ⟨⟨1, 1⟩, [⟨[7]⟩], 1, 0, 0⟩ ⟨⟨1, 1⟩, [⟨[0]⟩], 2, 1, 1⟩ := by
  have hg : chains.Reachable := .registerRecord (i := ()) .new rfl
  have h := ((Registry.pool_transparent chain).2.2 chains hg).2
  have ha : (ending (chains.readObject? (cutOff (some ⟨⟨1, 1⟩, [⟨[7]⟩], 1, 0, 0⟩)))).pool =
      some ⟨⟨1, 1⟩, [⟨[0]⟩], 2, 1, 1⟩ := by rfl
  obtain ⟨pool, hp, hb⟩ := h.balanced _ _ ⟨⟨1, 1⟩, [⟨[7]⟩], 1, 0, 0⟩
  obtain rfl := Option.some.inj (ha.symm.trans hp)
  exact ⟨hg, (h.same _ _ _).trans rfl, ha, hb⟩

end WireProtocol.Wire
