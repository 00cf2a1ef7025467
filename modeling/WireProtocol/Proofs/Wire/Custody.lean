import Mathlib.Algebra.BigOperators.Finprod
import WireProtocol.Proofs.Wire.Lending

/-! Where the masks of a pool are. Beside the pool stands a second description of it, with a queue
for each width and a number for each mask. Whoever asks for masks, gives back masks of the pool or
others, and writes to those in their hands: both descriptions stay in step, every mask is in one
place, and the counters account for all of them. -/

namespace WireProtocol.Wire

open Pool (Config)

structure Numbered where
  number : Nat
  mask : Mask
  deriving DecidableEq, Repr

/-- A queue is made when masks of its width are first asked for or given back. -/
structure Shelves where
  config : Config
  queues : List (Nat × List Numbered) := []
  allocated : Nat := 0
  reused : Nat := 0
  discarded : Nat := 0
  deriving DecidableEq, Repr

namespace Shelves

def queue (s : Shelves) (width : Nat) : List Numbered := (s.queues.lookup width).getD []

def contents (s : Shelves) : List Numbered := s.queues.flatMap (·.2)

def put (s : Shelves) (width : Nat) (queue : List Numbered) : Shelves :=
  { s with queues := (width, queue) :: s.queues.filter (·.1 != width) }

def acquire (s : Shelves) (width fresh : Nat) : Numbered × Shelves :=
  if width = 0 then (⟨fresh, .new 0⟩, s)
  else
    match s.queue width with
    | n :: rest => (⟨n.number, n.mask.clear⟩, { s.put width rest with reused := s.reused + 1 })
    | [] => (⟨fresh, .new width⟩, { s.put width [] with allocated := s.allocated + 1 })

def release (s : Shelves) (n : Numbered) : Shelves :=
  if n.mask.width = 0 then s
  else if (s.queue n.mask.width).length < s.config.capacity n.mask.width then
    s.put n.mask.width (s.queue n.mask.width ++ [n])
  else { s.put n.mask.width (s.queue n.mask.width) with discarded := s.discarded + 1 }

structure Sorted (s : Shelves) : Prop where
  keys : (s.queues.map (·.1)).Nodup
  widths : ∀ q ∈ s.queues, ∀ n ∈ q.2, n.mask.width = q.1

variable {s : Shelves} {width : Nat} {queue : List Numbered}

theorem lookup_filter_ne {queues : List (Nat × List Numbered)} {w : Nat} (h : w ≠ width) :
    (queues.filter (·.1 != width)).lookup w = queues.lookup w := by
  induction queues with
  | nil => rfl
  | cons q queues ih =>
    obtain ⟨w', queue⟩ := q
    rw [List.filter_cons]
    by_cases hw : w' = width
    · have hne : (w == w') = false := by simpa [hw] using h
      rw [if_neg (by simp [hw]), ih, List.lookup_cons, hne]
    · rw [if_pos (by simpa using hw), List.lookup_cons, List.lookup_cons, ih]

theorem queue_put (s : Shelves) (width : Nat) (queue : List Numbered) (w : Nat) :
    (s.put width queue).queue w = if w = width then queue else s.queue w := by
  rw [Shelves.queue, put, List.lookup_cons]
  by_cases h : w = width
  · simp [h]
  · rw [beq_false_of_ne h, if_neg h, lookup_filter_ne h]
    rfl

theorem queue_put_self (s : Shelves) (width w : Nat) :
    (s.put width (s.queue width)).queue w = s.queue w := by
  rw [queue_put]
  split
  · next h => rw [h]
  · rfl

theorem mem_queues_of_mem_queue {n : Numbered} (h : n ∈ s.queue width) :
    (width, s.queue width) ∈ s.queues := by
  rw [Shelves.queue] at h ⊢
  cases hl : s.queues.lookup width with
  | none => simp [hl] at h
  | some q =>
    obtain ⟨before, after, he, -⟩ := List.lookup_eq_some_iff.1 hl
    simp [he]

theorem Sorted.width_eq (h : s.Sorted) {n : Numbered} (hn : n ∈ s.queue width) :
    n.mask.width = width :=
  h.widths _ (mem_queues_of_mem_queue hn) n hn

theorem Sorted.put (h : s.Sorted) (hq : ∀ n ∈ queue, n.mask.width = width) :
    (s.put width queue).Sorted where
  keys := by
    rw [Shelves.put, List.map_cons, List.nodup_cons]
    exact ⟨by simp, h.keys.sublist (List.filter_sublist.map _)⟩
  widths := List.forall_mem_cons.2 ⟨hq, fun q hm => h.widths q (List.mem_of_mem_filter hm)⟩

theorem Sorted.acquire (h : s.Sorted) (width fresh : Nat) : (s.acquire width fresh).2.Sorted := by
  rw [Shelves.acquire]
  split
  · exact h
  · split
    · next n rest hq =>
      have hr : ∀ n ∈ rest, n.mask.width = width := fun n hn =>
        h.width_eq (by rw [hq]; exact List.mem_cons_of_mem _ hn)
      exact ⟨(h.put hr).keys, (h.put hr).widths⟩
    · have hr : (s.put width []).Sorted := h.put (List.forall_mem_nil _)
      exact ⟨hr.keys, hr.widths⟩

theorem Sorted.release (h : s.Sorted) (n : Numbered) : (s.release n).Sorted := by
  rw [Shelves.release]
  have hq : ∀ n' ∈ s.queue n.mask.width, n'.mask.width = n.mask.width := fun _ => h.width_eq
  split
  · exact h
  · split
    · exact h.put (List.forall_mem_append.2 ⟨hq, List.forall_mem_singleton.2 rfl⟩)
    · exact ⟨(h.put hq).keys, (h.put hq).widths⟩

theorem perm_put (h : (s.queues.map (·.1)).Nodup) (width : Nat) (queue : List Numbered) :
    ((s.put width queue).contents ++ s.queue width).Perm (s.contents ++ queue) := by
  have hrest : (s.queue width ++ (s.queues.filter (·.1 != width)).flatMap (·.2)).Perm
      s.contents := by
    rw [Shelves.queue, contents]
    generalize s.queues = queues at h
    induction queues with
    | nil => exact .refl _
    | cons q queues ih =>
      obtain ⟨w, q⟩ := q
      rw [List.map_cons, List.nodup_cons] at h
      by_cases hw : w = width
      · have hf : queues.filter (·.1 != width) = queues := List.filter_eq_self.2 fun p hp => by
          have hne : p.1 ≠ width := fun he =>
            h.1 (List.mem_map.2 ⟨p, hp, he.trans hw.symm⟩)
          simpa using hne
        simp [hw, hf]
      · have hb : (width == w) = false := by simpa using Ne.symm hw
        rw [List.lookup_cons, hb, List.filter_cons, if_pos (by simpa using hw),
          List.flatMap_cons, List.flatMap_cons]
        exact (List.perm_append_comm_assoc _ _ _).trans ((ih h.2).append_left q)
  rw [contents, put, List.flatMap_cons, List.append_assoc]
  exact List.perm_append_comm.trans ((List.perm_append_comm.trans hrest).append_right queue)

theorem acquire_cases (h : (s.queues.map (·.1)).Nodup) (width fresh : Nat) :
    s.contents.Perm (s.acquire width fresh).2.contents ∧
        (s.acquire width fresh).1.number = fresh ∨
      (s.contents.map (·.number)).Perm ((s.acquire width fresh).1.number ::
        (s.acquire width fresh).2.contents.map (·.number)) := by
  rw [acquire]
  split
  · exact .inl ⟨.refl _, rfl⟩
  · split
    · next n rest hq =>
      have hp := perm_put h width rest
      rw [hq] at hp
      have hp : (n :: (s.put width rest).contents ++ rest).Perm (s.contents ++ rest) :=
        List.perm_middle.symm.trans hp
      exact .inr (((List.perm_append_right_iff rest).1 hp).symm.map (·.number))
    · next hq =>
      have hp := perm_put h width []
      rw [hq, List.append_nil, List.append_nil] at hp
      exact .inl ⟨hp.symm, rfl⟩

theorem release_cases (h : (s.queues.map (·.1)).Nodup) (n : Numbered) :
    (s.release n).contents.Perm s.contents ∨ (s.release n).contents.Perm (n :: s.contents) := by
  rw [release]
  split
  · exact .inl (.refl _)
  · split
    · have hp := perm_put h n.mask.width (s.queue n.mask.width ++ [n])
      have hp := hp.trans (List.perm_append_comm_assoc _ _ _)
      exact .inr ((List.perm_append_right_iff _).1
        (hp.trans (List.perm_append_comm.trans (.append_right _ (List.perm_append_singleton _ _)))))
    · exact .inl ((List.perm_append_right_iff _).1 (perm_put h _ _))

end Shelves

namespace Pool

theorem filter_eraseP_of_disjoint {α : Type} {p q : α → Bool} (h : ∀ a, p a = true → q a = false)
    (l : List α) : (l.eraseP p).filter q = l.filter q := by
  induction l with
  | nil => rfl
  | cons a l ih =>
    by_cases hp : p a = true
    · simp [hp, h a hp]
    · simp [hp, List.filter_cons, ih]

theorem filter_eraseP_self {α : Type} (p : α → Bool) (l : List α) :
    (l.eraseP p).filter p = (l.filter p).tail := by
  induction l with
  | nil => rfl
  | cons a l ih =>
    by_cases hp : p a = true
    · simp [hp]
    · simp [hp, ih]

structure LaidOut (pool : Pool) (s : Shelves) : Prop where
  config : s.config = pool.config
  allocated : s.allocated = pool.allocated
  reused : s.reused = pool.reused
  discarded : s.discarded = pool.discarded
  queue : ∀ width, (s.queue width).map (·.mask) = pool.idle.filter (·.width == width)

namespace LaidOut

variable {pool : Pool} {s : Shelves}

theorem new (config : Config) : LaidOut (.new config) { config } :=
  ⟨rfl, rfl, rfl, rfl, fun _ => rfl⟩

theorem retained (h : pool.LaidOut s) (width : Nat) :
    (s.queue width).length = pool.retained width := by
  rw [Pool.retained, List.countP_eq_length_filter, ← h.queue, List.length_map]

theorem acquire (h : pool.LaidOut s) (width fresh : Nat) :
    (s.acquire width fresh).1.mask = (pool.acquire width).1 ∧
      (pool.acquire width).2.LaidOut (s.acquire width fresh).2 := by
  have hq := h.queue width
  have hf : pool.idle.find? (·.width == width) = ((s.queue width).map (·.mask)).head? := by
    rw [hq, List.head?_filter]
  rw [Shelves.acquire, Pool.acquire, hf]
  split
  · exact ⟨rfl, h⟩
  · cases hs : s.queue width with
    | nil =>
      refine ⟨rfl, h.config, congrArg (· + 1) h.allocated, h.reused, h.discarded, fun w => ?_⟩
      change ((s.put width []).queue w).map _ = pool.idle.filter _
      rw [← hs, Shelves.queue_put_self, h.queue]
    | cons n rest =>
      refine ⟨rfl, h.config, h.allocated, congrArg (· + 1) h.reused, h.discarded, fun w => ?_⟩
      rw [hs] at hq
      change ((s.put width rest).queue w).map _ = (pool.idle.eraseP (·.width == width)).filter _
      rw [Shelves.queue_put]
      split
      · next hw => rw [hw, filter_eraseP_self, ← hq, List.map_cons, List.tail_cons]
      · next hw =>
        rw [h.queue, filter_eraseP_of_disjoint]
        intro mask hm
        rw [beq_iff_eq] at hm
        exact beq_false_of_ne fun he => hw (he.symm.trans hm)

theorem release (h : pool.LaidOut s) (n : Numbered) :
    (pool.release n.mask).LaidOut (s.release n) := by
  have hc : s.config.capacity n.mask.width = pool.capacity n.mask.width := by
    rw [h.config, Pool.capacity]
  rw [Shelves.release, Pool.release, h.retained, hc]
  split
  · exact h
  · split
    · refine ⟨h.config, h.allocated, h.reused, h.discarded, fun w => ?_⟩
      rw [Shelves.queue_put, List.filter_append]
      split
      · next hw => simp [hw, h.queue]
      · next hw =>
        have hne : (n.mask.width == w) = false := by simpa using Ne.symm hw
        simp [hne, h.queue]
    · exact ⟨h.config, h.allocated, h.reused, congrArg (· + 1) h.discarded, fun w =>
        (congrArg _ (s.queue_put_self _ w)).trans (h.queue w)⟩

end LaidOut

theorem counts_acquire (pool : Pool) {width : Nat} (hw : width ≠ 0) :
    (pool.acquire width).2.allocated + (pool.acquire width).2.reused =
      pool.allocated + pool.reused + 1 := by
  rw [acquire, if_neg hw]
  split <;> dsimp only <;> omega

theorem counts_release (pool : Pool) (mask : Mask) :
    (pool.release mask).allocated + (pool.release mask).reused = pool.allocated + pool.reused := by
  rw [release]
  repeat' split
  all_goals rfl

theorem config_acquire (pool : Pool) (width : Nat) :
    (pool.acquire width).2.config = pool.config := by
  rw [acquire]
  repeat' split
  all_goals rfl

theorem config_release (pool : Pool) (mask : Mask) :
    (pool.release mask).config = pool.config := by
  rw [release]
  repeat' split
  all_goals rfl

theorem acquire_fst (pool : Pool) (width : Nat) : (pool.acquire width).1 = .new width :=
  lend_fst (some pool) width

theorem capacity_eq {config : Config} (h : config.max ≤ wordMax) (width : Nat) :
    config.capacity width = max 1 (min (config.base * max width 1) config.max) := by
  change max 1 (min (min (config.base * max width 1) wordMax) config.max) = _
  rw [min_assoc, min_eq_right h]

def Bounded (pool : Pool) : Prop := ∀ width, pool.retained width ≤ pool.capacity width

theorem Bounded.acquire {pool : Pool} (h : pool.Bounded) (width : Nat) :
    (pool.acquire width).2.Bounded := by
  intro w
  have hc : (pool.acquire width).2.capacity w = pool.capacity w := by
    rw [capacity, config_acquire, capacity]
  have hr : (pool.acquire width).2.retained w ≤ pool.retained w := by
    rw [Pool.acquire]
    split
    · exact le_rfl
    · split
      · exact List.Sublist.countP_le List.eraseP_sublist
      · exact le_rfl
  exact hr.trans ((h w).trans hc.ge)

theorem Bounded.release {pool : Pool} (h : pool.Bounded) (mask : Mask) :
    (pool.release mask).Bounded := by
  intro w
  rw [Pool.release]
  split
  · exact h w
  · split
    · next hr =>
      change (pool.idle ++ [mask]).countP _ ≤ pool.capacity w
      rw [List.countP_append, List.countP_singleton]
      split
      · next hw => exact beq_iff_eq.1 hw ▸ hr
      · exact h w
    · exact h w

theorem finsum_retained (pool : Pool) : ∑ᶠ width, pool.retained width = pool.idle.length := by
  have hc : ∀ width, pool.retained width = (pool.idle.map Mask.width).count width := fun width => by
    rw [retained, List.count, List.countP_map]
    rfl
  have hs : Function.support pool.retained ⊆ ((pool.idle.map Mask.width).toFinset : Set Nat) := by
    intro width hw
    rw [Function.mem_support, hc, ← Nat.pos_iff_ne_zero, List.count_pos_iff] at hw
    exact List.mem_toFinset.2 hw
  rw [finsum_eq_sum_of_support_subset _ hs, Finset.sum_congr rfl fun width _ => hc width,
    List.sum_toFinset_count_eq_length, List.length_map]

end Pool

structure Holding extends Numbered where
  guarded : Bool
  deriving DecidableEq, Repr

/-- A pool, where its masks lie, and what is done with it. Only masks with words are counted. -/
structure Custody where
  pool : Pool
  shelves : Shelves
  held : List Holding := []
  next : Nat := 0
  acquired : Nat := 0
  released : Nat := 0

namespace Custody

/-- A mask is acquired, or made without the pool; one that is held is given other words; or it is
given back. A mask under a guard is acquired and given back by the guard. -/
inductive Op
  | acquire (width : Nat)
  | guard (width : Nat)
  | make (mask : Mask)
  | write (number : Nat) (words : List UInt32)
  | release (number : Nat)
  | drop (number : Nat)
  deriving DecidableEq, Repr

def new (config : Config) : Custody := { pool := .new config, shelves := { config } }

def take (c : Custody) (width : Nat) (guarded : Bool) (mask : Mask) (pool : Pool) : Custody :=
  let (n, shelves) := c.shelves.acquire width c.next
  { pool, shelves
    held := ⟨⟨n.number, mask⟩, guarded⟩ :: c.held
    next := c.next + 1
    acquired := if width = 0 then c.acquired else c.acquired + 1
    released := c.released }

def give (c : Custody) (h : Holding) (pool : Pool) : Custody where
  pool := pool
  shelves := c.shelves.release h.toNumbered
  held := c.held.erase h
  next := c.next
  acquired := c.acquired
  released := if h.mask.width = 0 then c.released else c.released + 1

def held? (c : Custody) (number : Nat) (guarded : Bool) : Option Holding :=
  c.held.find? fun h => h.number == number && h.guarded == guarded

def step (c : Custody) : Op → Custody
  | .acquire width => c.take width false (c.pool.acquire width).1 (c.pool.acquire width).2
  | .guard width =>
    let (mask, pool?) := Pool.lend (some c.pool) width
    c.take width true mask (pool?.getD c.pool)
  | .make mask => { c with held := ⟨⟨c.next, mask⟩, false⟩ :: c.held, next := c.next + 1 }
  | .write number words =>
    { c with held := c.held.map fun h =>
        if h.number = number ∧ words.length = h.mask.width then { h with mask := ⟨words⟩ } else h }
  | .release number =>
    match c.held? number false with
    | some h => c.give h (c.pool.release h.mask)
    | none => c
  | .drop number =>
    match c.held? number true with
    | some h => c.give h ((Pool.giveBack (some c.pool) h.mask).getD c.pool)
    | none => c

def run (config : Config) (ops : List Op) : Custody := ops.foldl step (.new config)

def numbers (c : Custody) : List Nat :=
  c.shelves.contents.map (·.number) ++ c.held.map (·.number)

theorem numbers_take {c : Custody} (hs : c.shelves.Sorted) (width : Nat) (guarded : Bool)
    (mask : Mask) (pool : Pool) :
    (c.take width guarded mask pool).numbers.Perm (c.next :: c.numbers) ∨
      (c.take width guarded mask pool).numbers.Perm c.numbers := by
  have middle : (c.take width guarded mask pool).numbers.Perm
      ((c.shelves.acquire width c.next).1.number ::
        (c.shelves.acquire width c.next).2.contents.map (·.number) ++ c.held.map (·.number)) :=
    List.perm_middle
  rcases Shelves.acquire_cases hs.keys width c.next with ⟨hp, hn⟩ | hp
  · rw [hn] at middle
    exact .inl (middle.trans (((hp.symm.map _).append_right _).cons _))
  · exact .inr (middle.trans (hp.symm.append_right _))

theorem numbers_give {c : Custody} (hs : c.shelves.Sorted) {g : Holding} (hg : g ∈ c.held)
    (pool : Pool) :
    c.numbers.Perm (g.number :: (c.give g pool).numbers) ∨
      c.numbers.Perm (c.give g pool).numbers := by
  have held : (c.held.map (·.number)).Perm (g.number :: (c.held.erase g).map (·.number)) :=
    (List.perm_cons_erase hg).map _
  have all : c.numbers.Perm
      (g.number :: (c.shelves.contents.map (·.number) ++ (c.held.erase g).map (·.number))) :=
    (held.append_left _).trans List.perm_middle
  rcases Shelves.release_cases hs.keys g.toNumbered with hp | hp
  · exact .inl (all.trans (((hp.symm.map _).append_right _).cons _))
  · exact .inr (all.trans ((hp.symm.map _).append_right _))

theorem numbers_write (c : Custody) (number : Nat) (words : List UInt32) :
    (c.step (.write number words)).numbers = c.numbers := by
  rw [numbers, numbers, step, List.map_map]
  refine congrArg _ (List.map_congr_left fun h _ => ?_)
  dsimp only [Function.comp_apply]
  split <;> rfl

structure Inv (config : Config) (c : Custody) : Prop where
  config : c.pool.config = config
  laidOut : c.pool.LaidOut c.shelves
  sorted : c.shelves.Sorted
  bounded : c.pool.Bounded
  nodup : c.numbers.Nodup
  fresh : ∀ n ∈ c.numbers, n < c.next
  counts : c.pool.allocated + c.pool.reused = c.acquired
  reached : c.pool.Reached c.acquired c.released

namespace Inv

variable {config : Config} {c : Custody}

theorem new (config : Config) : Inv config (.new config) where
  config := rfl
  laidOut := .new config
  sorted := ⟨.nil, List.forall_mem_nil _⟩
  bounded _ := Nat.zero_le _
  nodup := .nil
  fresh := List.forall_mem_nil _
  counts := rfl
  reached := .new config

theorem nodup_next (h : Inv config c) : (c.next :: c.numbers).Nodup :=
  List.nodup_cons.2 ⟨fun hm => Nat.lt_irrefl _ (h.fresh _ hm), h.nodup⟩

theorem lt_next (h : Inv config c) : ∀ n ∈ c.next :: c.numbers, n < c.next + 1 :=
  List.forall_mem_cons.2 ⟨Nat.lt_succ_self _, fun n hm => Nat.lt_succ_of_lt (h.fresh n hm)⟩

theorem take (h : Inv config c) (width : Nat) (guarded : Bool) :
    Inv config (c.take width guarded (c.pool.acquire width).1 (c.pool.acquire width).2) where
  config := (c.pool.config_acquire width).trans h.config
  laidOut := (h.laidOut.acquire width c.next).2
  sorted := h.sorted.acquire width c.next
  bounded := h.bounded.acquire width
  nodup := (numbers_take h.sorted width guarded _ _).elim
    (fun hp => hp.nodup_iff.2 h.nodup_next) (fun hp => hp.nodup_iff.2 h.nodup)
  fresh n hm := (numbers_take h.sorted width guarded _ _).elim
    (fun hp => h.lt_next n (hp.subset hm))
    (fun hp => Nat.lt_succ_of_lt (h.fresh n (hp.subset hm)))
  counts := by
    simp only [Custody.take]
    split
    · next hw => rw [hw, ← h.counts]; rfl
    · next hw => rw [c.pool.counts_acquire hw, h.counts]
  reached := by
    simp only [Custody.take]
    split
    · next hw => rw [hw]; exact h.reached
    · next hw => exact h.reached.acquire hw

theorem give (h : Inv config c) {g : Holding} (hg : g ∈ c.held) :
    Inv config (c.give g (c.pool.release g.mask)) where
  config := (c.pool.config_release g.mask).trans h.config
  laidOut := h.laidOut.release g.toNumbered
  sorted := h.sorted.release g.toNumbered
  bounded := h.bounded.release g.mask
  nodup := (numbers_give h.sorted hg _).elim
    (fun hp => (List.nodup_cons.1 (hp.nodup_iff.1 h.nodup)).2) (fun hp => hp.nodup_iff.1 h.nodup)
  fresh n hm := (numbers_give h.sorted hg _).elim
    (fun hp => h.fresh n (hp.symm.subset (List.mem_cons_of_mem _ hm)))
    (fun hp => h.fresh n (hp.symm.subset hm))
  counts := (c.pool.counts_release g.mask).trans h.counts
  reached := by
    simp only [Custody.give]
    split
    · next hw => rw [Pool.release_zero hw]; exact h.reached
    · next hw => exact h.reached.release hw

theorem step (h : Inv config c) (op : Op) : Inv config (c.step op) := by
  cases op with
  | acquire width => exact h.take width false
  | guard width => exact h.take width true
  | make mask =>
    have hp : (c.step (.make mask)).numbers.Perm (c.next :: c.numbers) := List.perm_middle
    exact { h with
      nodup := hp.nodup_iff.2 h.nodup_next
      fresh := fun n hm => h.lt_next n (hp.subset hm) }
  | write number words =>
    have hn := c.numbers_write number words
    exact { h with
      nodup := hn ▸ h.nodup
      fresh := fun n hm => h.fresh n (hn ▸ hm) }
  | release number =>
    rw [Custody.step]
    split
    · next g hg => exact h.give (List.mem_of_find?_eq_some hg)
    · exact h
  | drop number =>
    rw [Custody.step]
    split
    · next g hg => exact h.give (List.mem_of_find?_eq_some hg)
    · exact h

theorem run (config : Config) (ops : List Op) : Inv config (Custody.run config ops) := by
  have h : ∀ c, Inv config c → Inv config (ops.foldl Custody.step c) := by
    induction ops with
    | nil => exact fun c hc => hc
    | cons op ops ih => exact fun c hc => ih _ (hc.step op)
  exact h _ (.new config)

end Inv

/-- What holds of a pool, of the shelves beside it, and of the masks that are held. -/
structure Sound (base max : Nat) (c : Custody) : Prop where
  lent : ∀ width, (c.pool.acquire width).1 = .new width ∧
    (Pool.lend (some c.pool) width).1 = .new width
  filed : ∀ q ∈ c.shelves.queues, ∀ n ∈ q.2, n.mask.width = q.1
  laidOut : c.pool.LaidOut c.shelves
  capacity : ∀ width, c.pool.capacity width = Nat.max 1 (Nat.min (base * Nat.max width 1) max)
  bounded : ∀ width, c.pool.retained width ≤ c.pool.capacity width
  apart : c.numbers.Nodup
  acquired : c.pool.allocated + c.pool.reused = c.acquired
  retained : (∑ᶠ width, c.pool.retained width) + c.pool.discarded + c.pool.reused = c.released
  wordless : (c.pool.acquire 0).2 = c.pool ∧ ∀ mask : Mask, mask.width = 0 →
    c.pool.release mask = c.pool

/-- Whatever is done with a pool of any size, the masks in it and in use are sound. -/
theorem run_sound (base max : UInt64) (ops : List Op) :
    (run ⟨base.toNat, max.toNat⟩ ops).Sound base.toNat max.toNat := by
  have h := Inv.run ⟨base.toNat, max.toNat⟩ ops
  refine ⟨fun width => ?lent, h.sorted.widths, h.laidOut, fun width => ?capacity, h.bounded,
    h.nodup, h.counts, ?retained, rfl, fun mask => Pool.release_zero⟩
  case lent => exact ⟨Pool.acquire_fst _ width, Pool.lend_fst _ width⟩
  case capacity =>
    rw [Pool.capacity, h.config]
    exact Pool.capacity_eq (Nat.le_of_lt_succ max.toNat_lt) width
  case retained =>
    have ha := h.reached.accounts
    have hc := h.counts
    rw [Pool.finsum_retained]
    omega

example : (run ⟨1, 1⟩ [.acquire 2, .guard 2, .write 0 [7, 7], .release 0, .drop 1, .guard 2]).held =
    [⟨⟨0, .new 2⟩, true⟩] := by decide

end Custody

end WireProtocol.Wire
