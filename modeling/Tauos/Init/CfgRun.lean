import Mathlib.Logic.Relation
import Tauos.Init.BootCfg
import Tauos.Rust.Mutex

/-!
# The boot configuration on several processors

`init_boot_cfg` may be called on every CPU, and the settings may be asked for at any time:
`CFG_SYNC_STATE` is 0 until a CPU begins to set them, 1 until it is done, and 2 from then on. The
first CPU sets one after the other, and the other calls wait for it.

> `cfg_published`: nobody sees a setting before all are set, and then they are those of one call of
> `init_boot_cfg`, for good.

A panic in that call leaves the state at 1, so then no setting is ever seen and no call returns.
Loads and stores are one at a time, in some order.
-/

namespace Tauos.Cfg

open Tauos.Rust

/-- The settings, in the order of `krnl_boot_cfg!`. -/
inductive Key
  | stackSize
  | heapInitSize
  | heapSmlstBlock
  deriving DecidableEq, Repr

/-- The setting behind a key. -/
def Key.setting : Key → Setting
  | .stackSize => Cfg.stackSize
  | .heapInitSize => Cfg.heapInitSize
  | .heapSmlstBlock => Cfg.heapSmlstBlock

/-- `STATIC_DATA`. -/
def BootCfg.data (b : BootCfg) : Key → Nat
  | .stackSize => b.stackSize
  | .heapInitSize => b.heapInitSize
  | .heapSmlstBlock => b.heapSmlstBlock

/-- `STATIC_DATA = value`. -/
def BootCfg.put (b : BootCfg) (value : Nat) : Key → BootCfg
  | .stackSize => { b with stackSize := value }
  | .heapInitSize => { b with heapInitSize := value }
  | .heapSmlstBlock => { b with heapSmlstBlock := value }

@[simp] theorem BootCfg.put_syncState (b : BootCfg) (value : Nat) (k : Key) :
    (b.put value k).syncState = b.syncState := by
  cases k <;> rfl

theorem BootCfg.put_data (b : BootCfg) (value : Nat) (k : Key) :
    (b.put value k).data = Function.update b.data k value := by
  funext k'
  cases k <;> cases k' <;> rfl

/-- Where a CPU is in `init_boot_cfg`, or in the function of a setting. -/
inductive Stage
  | idle
  /-- In front of `compare_exchange`. -/
  | called (cfg : String)
  /-- The settings `todo` are still to be set. -/
  | writing (cfg : String) (todo : List Key)
  | spinning
  /-- In front of the load. -/
  | loading (k : Key)
  /-- In front of `STATIC_DATA`. -/
  | reading (k : Key)
  | panicked

/-- The settings and the CPUs. No step depends on what has happened so far: the text of the CPU that
sets them, whether a call has returned, and what was read. -/
structure Board (n : Nat) where
  cfg : BootCfg
  stage : Fin n → Stage
  won : Option String
  returned : Bool
  got : List (Key × Nat)

variable {n : Nat}

/-- No CPU has called anything. -/
def Board.init (n : Nat) (b : BootCfg) : Board n := ⟨b, fun _ => .idle, none, false, []⟩

/-- A CPU is at another stage. -/
def Board.goto (s : Board n) (i : Fin n) (x : Stage) : Board n :=
  { s with stage := Function.update s.stage i x }

/-- One step of one CPU. -/
inductive Board.Step (s : Board n) : Board n → Prop
  | call {i : Fin n} {cfg : String} : s.stage i = .idle → Board.Step s (s.goto i (.called cfg))
  /-- `compare_exchange` is `Ok`. -/
  | win {i : Fin n} {cfg : String} : s.stage i = .called cfg → s.cfg.syncState = 0 →
      Board.Step s { s.goto i (.writing cfg [.stackSize, .heapInitSize, .heapSmlstBlock]) with
        cfg := { s.cfg with syncState := 1 }
        won := some cfg }
  | wait {i : Fin n} {cfg : String} : s.stage i = .called cfg → s.cfg.syncState = 1 →
      Board.Step s (s.goto i .spinning)
  | done {i : Fin n} {cfg : String} : s.stage i = .called cfg → s.cfg.syncState = 2 →
      Board.Step s { s.goto i .idle with returned := true }
  | unknown {i : Fin n} {cfg : String} : s.stage i = .called cfg → 2 < s.cfg.syncState →
      Board.Step s (s.goto i .panicked)
  | write {i : Fin n} {cfg : String} {k : Key} {todo : List Key} {value : Nat} :
      s.stage i = .writing cfg (k :: todo) → k.setting.read (cfgLines cfg) = .ok value →
      Board.Step s { s.goto i (.writing cfg todo) with cfg := s.cfg.put value k }
  /-- An `unwrap` or `expect` panics. -/
  | fail {i : Fin n} {cfg : String} {k : Key} {todo : List Key} {e : Fault} :
      s.stage i = .writing cfg (k :: todo) → k.setting.read (cfgLines cfg) = .error e →
      Board.Step s (s.goto i .panicked)
  /-- `CFG_SYNC_STATE.store(2)`. -/
  | store {i : Fin n} {cfg : String} : s.stage i = .writing cfg [] →
      Board.Step s { s.goto i .idle with cfg := { s.cfg with syncState := 2 }, returned := true }
  /-- The wait ends. -/
  | stop {i : Fin n} : s.stage i = .spinning → s.cfg.syncState ≠ 1 →
      Board.Step s { s.goto i .idle with returned := true }
  | ask {i : Fin n} {k : Key} : s.stage i = .idle → Board.Step s (s.goto i (.loading k))
  | load {i : Fin n} {k : Key} : s.stage i = .loading k → s.cfg.syncState = 2 →
      Board.Step s (s.goto i (.reading k))
  /-- `cfg not initialised!` -/
  | refuse {i : Fin n} {k : Key} : s.stage i = .loading k → s.cfg.syncState ≠ 2 →
      Board.Step s (s.goto i .panicked)
  | read {i : Fin n} {k : Key} : s.stage i = .reading k →
      Board.Step s { s.goto i .idle with got := (k, s.cfg.data k) :: s.got }

/-- The states of the configuration. -/
def Board.Reached (b : BootCfg) (s : Board n) : Prop :=
  Relation.ReflTransGen Board.Step (Board.init n b) s

/-! ## The invariant -/

/-- The CPU sets the settings. -/
def Stage.Writes : Stage → Prop
  | .writing _ _ => True
  | _ => False

/-- The state word tells who may write: at 0 nobody has won, at 1 one CPU writes, at 2 all is
published and nobody writes again. -/
structure Board.Inv (s : Board n) : Prop where
  range : s.cfg.syncState ≤ 2
  fresh : s.cfg.syncState = 0 → s.won = none
  guard : ∃ lock, Guarded lock (Stage.Writes ∘ s.stage) ∧ (s.cfg.syncState ≠ 1 → lock = none)
  writes : ∀ i cfg todo, s.stage i = .writing cfg todo → s.won = some cfg ∧
    ∀ k : Key, k ∉ todo → k.setting.read (cfgLines cfg) = .ok (s.cfg.data k)
  set : s.cfg.syncState = 2 → ∃ cfg, s.won = some cfg ∧
    ∀ k : Key, k.setting.read (cfgLines cfg) = .ok (s.cfg.data k)
  spins : ∀ i, s.stage i = .spinning → s.cfg.syncState ≠ 0
  reading : ∀ i k, s.stage i = .reading k → s.cfg.syncState = 2
  got : ∀ k v, (k, v) ∈ s.got → s.cfg.syncState = 2 ∧ v = s.cfg.data k
  returned : s.returned = true → s.cfg.syncState = 2

variable {s s' : Board n} {i : Fin n} {b : BootCfg}

/-- It holds at the start. -/
theorem Board.inv_init (hb : b.syncState = 0) : (Board.init n b).Inv := by
  refine ⟨?_, fun _ => rfl, ⟨none, guarded_none fun _ => id, fun _ => rfl⟩, nofun, fun h => ?_,
    nofun, nofun, ?_, nofun⟩
  · show b.syncState ≤ 2
    omega
  · have h' : b.syncState = 2 := h
    omega
  · intro k v hkv
    cases hkv

/-- The CPU that sets the settings does it while the state is 1. -/
theorem Board.Inv.one (h : s.Inv) (hi : (s.stage i).Writes) : s.cfg.syncState = 1 := by
  obtain ⟨lock, hguard, hlock⟩ := h.guard
  by_contra hne
  cases ((hguard i).mp hi).symm.trans (hlock hne)

/-- A CPU is where it went to, or where it was. -/
theorem update_stage {x y : Stage} {j : Fin n} (hj : Function.update s.stage i x j = y) :
    x = y ∨ j ≠ i ∧ s.stage j = y := by
  by_cases hji : j = i
  · subst hji
    exact .inl ((Function.update_self ..).symm.trans hj)
  · exact .inr ⟨hji, (Function.update_of_ne hji ..).symm.trans hj⟩

/-- A step that leaves the settings alone. -/
theorem Board.Inv.goto (h : s.Inv) {x : Stage} (hcfg : s'.cfg = s.cfg) (hwon : s'.won = s.won)
    (hstage : s'.stage = Function.update s.stage i x) (hx : ¬ x.Writes)
    (hspins : x = .spinning → s.cfg.syncState ≠ 0)
    (hreading : ∀ k, x = .reading k → s.cfg.syncState = 2)
    (hgot : ∀ k v, (k, v) ∈ s'.got → s.cfg.syncState = 2 ∧ v = s.cfg.data k)
    (hreturned : s'.returned = true → s.cfg.syncState = 2) : s'.Inv := by
  refine ⟨hcfg ▸ h.range, hcfg ▸ hwon ▸ h.fresh, ?_, fun j cfg todo hj => ?_, ?_,
    fun j hj => ?_, fun j k hj => ?_, hcfg ▸ hgot, hcfg ▸ hreturned⟩
  · obtain ⟨lock, hguard, hlock⟩ := h.guard
    rw [hcfg, hstage]
    by_cases hi : (s.stage i).Writes
    · exact ⟨none, hguard.release hi hx, fun _ => rfl⟩
    · exact ⟨lock, hguard.keep (iff_of_false hx hi), hlock⟩
  · rw [hstage] at hj
    rw [hcfg, hwon]
    obtain rfl | ⟨_, hj⟩ := update_stage hj
    · exact absurd trivial hx
    · exact h.writes j cfg todo hj
  · rw [hcfg, hwon]
    exact h.set
  · rw [hstage] at hj
    rw [hcfg]
    obtain hx' | ⟨_, hj⟩ := update_stage hj
    · exact hspins hx'
    · exact h.spins j hj
  · rw [hstage] at hj
    rw [hcfg]
    obtain hx' | ⟨_, hj⟩ := update_stage hj
    · exact hreading k hx'
    · exact h.reading j k hj

/-- No call has returned and nothing is read before the settings are set. -/
theorem Board.Inv.early (h : s.Inv) (hs : s.cfg.syncState ≠ 2) :
    (∀ k v, (k, v) ∉ s.got) ∧ s.returned = false ∧ ∀ j k, s.stage j ≠ .reading k := by
  refine ⟨fun k v hkv => hs (h.got k v hkv).1, ?_, fun j k hj => hs (h.reading j k hj)⟩
  rw [Bool.eq_false_iff]
  exact fun hret => hs (h.returned hret)

/-- The CPU that sets the settings, and no other one. -/
theorem Board.Inv.writer (h : s.Inv) (hi : (s.stage i).Writes) {j : Fin n}
    (hj : (s.stage j).Writes) : j = i := by
  obtain ⟨lock, hguard, _⟩ := h.guard
  exact hguard.unique hj hi

/-- `compare_exchange` by the CPU that comes first. -/
theorem Board.Inv.win (h : s.Inv) (cfg : String) (hzero : s.cfg.syncState = 0) :
    Board.Inv { s.goto i (.writing cfg [.stackSize, .heapInitSize, .heapSmlstBlock]) with
      cfg := { s.cfg with syncState := 1 }
      won := some cfg } := by
  obtain ⟨hgot, hreturned, hreading⟩ := h.early (by omega)
  refine ⟨Nat.le_succ 1, fun hz => ?_, ?_, fun j cfg' todo hj => ?_, fun htwo => ?_, fun j _ => ?_,
    fun j k hj => ?_, fun k v hkv => absurd hkv (hgot k v), fun hret => ?_⟩
  · cases hz
  · obtain ⟨lock, hguard, hlock⟩ := h.guard
    rw [hlock (by omega)] at hguard
    exact ⟨some i, hguard.acquire trivial, fun hne => absurd rfl hne⟩
  · obtain heq | ⟨_, hj⟩ := update_stage hj
    · cases heq
      refine ⟨rfl, fun k hk => ?_⟩
      cases k <;> simp at hk
    · have hone := h.one (i := j) (by rw [hj]; trivial)
      omega
  · cases htwo
  · exact Nat.one_ne_zero
  · obtain heq | ⟨_, hj⟩ := update_stage hj
    · cases heq
    · exact absurd hj (hreading j k)
  · rw [show s.returned = true from hret] at hreturned
    cases hreturned

/-- The next setting is set. -/
theorem Board.Inv.write (h : s.Inv) {cfg : String} {k : Key} {todo : List Key} {value : Nat}
    (hi : s.stage i = .writing cfg (k :: todo))
    (hread : k.setting.read (cfgLines cfg) = .ok value) :
    Board.Inv { s.goto i (.writing cfg todo) with cfg := s.cfg.put value k } := by
  have hin : (s.stage i).Writes := by
    rw [hi]
    trivial
  -- the CPU writes, so the state word is 1 and nothing is read yet
  have hone := h.one hin
  have hsync : (s.cfg.put value k).syncState = s.cfg.syncState := s.cfg.put_syncState value k
  obtain ⟨hgot, hreturned, hreading⟩ := h.early (by omega)
  refine ⟨?_, fun hz => ?_, ?_, fun j cfg' todo' hj => ?_, fun htwo => ?_, fun j _ => ?_,
    fun j k' hj => ?_, fun k' v hkv => absurd hkv (hgot k' v), fun hret => ?_⟩
  · show (s.cfg.put value k).syncState ≤ 2
    omega
  · have hz' : (s.cfg.put value k).syncState = 0 := hz
    omega
  · obtain ⟨lock, hguard, hlock⟩ := h.guard
    refine ⟨lock, hguard.keep (iff_of_true trivial hin), fun hne => hlock ?_⟩
    rwa [show (Board.cfg _).syncState = s.cfg.syncState from hsync] at hne
  · obtain heq | ⟨hji, hj⟩ := update_stage hj
    · cases heq
      obtain ⟨hwon, hset⟩ := h.writes _ _ _ hi
      refine ⟨hwon, fun k' hk' => ?_⟩
      show k'.setting.read (cfgLines cfg) = .ok ((s.cfg.put value k).data k')
      rw [BootCfg.put_data]
      by_cases heq : k' = k
      · subst heq
        rw [Function.update_self]
        exact hread
      · rw [Function.update_of_ne heq]
        refine hset k' fun hmem => ?_
        obtain heq' | hmem := List.mem_cons.mp hmem
        · exact heq heq'
        · exact hk' hmem
    · refine absurd (h.writer hin ?_) hji
      rw [hj]
      trivial
  · have htwo' : (s.cfg.put value k).syncState = 2 := htwo
    omega
  · show (s.cfg.put value k).syncState ≠ 0
    omega
  · obtain heq | ⟨_, hj⟩ := update_stage hj
    · cases heq
    · exact absurd hj (hreading j k')
  · rw [show s.returned = true from hret] at hreturned
    cases hreturned

/-- All settings are set. -/
theorem Board.Inv.store (h : s.Inv) {cfg : String} (hi : s.stage i = .writing cfg []) :
    Board.Inv { s.goto i .idle with cfg := { s.cfg with syncState := 2 }, returned := true } := by
  have hin : (s.stage i).Writes := by
    rw [hi]
    trivial
  have hone := h.one hin
  obtain ⟨hwon, hset⟩ := h.writes _ _ _ hi
  obtain ⟨hgot, _, hreading⟩ := h.early (by omega)
  refine ⟨Nat.le_refl 2, nofun, ?_, fun j cfg' todo hj => ?_, fun _ => ?_, fun j _ => nofun,
    fun j k hj => rfl, fun k v hkv => absurd hkv (hgot k v), fun _ => rfl⟩
  · obtain ⟨lock, hguard, _⟩ := h.guard
    exact ⟨none, hguard.release hin id, fun _ => rfl⟩
  · obtain heq | ⟨hji, hj⟩ := update_stage hj
    · cases heq
    · refine absurd (h.writer hin ?_) hji
      rw [hj]
      trivial
  · refine ⟨cfg, hwon, fun k => ?_⟩
    have hk := hset k List.not_mem_nil
    cases k <;> exact hk

/-- Every step keeps it. -/
theorem Board.Inv.step (h : s.Inv) (hs : s.Step s') : s'.Inv := by
  cases hs with
  | call hi => exact h.goto rfl rfl rfl id nofun nofun h.got h.returned
  | win hi hzero => exact h.win _ hzero
  | wait hi hone =>
    exact h.goto rfl rfl rfl id (fun _ => by omega) nofun h.got h.returned
  | done hi htwo => exact h.goto rfl rfl rfl id nofun nofun h.got fun _ => htwo
  | unknown hi hlt => exact absurd h.range (by omega)
  | write hi hread => exact h.write hi hread
  | fail hi hread => exact h.goto rfl rfl rfl id nofun nofun h.got h.returned
  | store hi => exact h.store hi
  | stop hi hne =>
    have hrange := h.range
    have hspins := h.spins _ hi
    exact h.goto rfl rfl rfl id nofun nofun h.got fun _ => by omega
  | ask hi => exact h.goto rfl rfl rfl id nofun nofun h.got h.returned
  | load hi htwo => exact h.goto rfl rfl rfl id nofun (fun _ _ => htwo) h.got h.returned
  | refuse hi hne => exact h.goto rfl rfl rfl id nofun nofun h.got h.returned
  | read hi =>
    refine h.goto rfl rfl rfl id nofun nofun (fun k v hkv => ?_) h.returned
    obtain heq | hkv := List.mem_cons.mp hkv
    · cases heq
      exact ⟨h.reading _ _ hi, rfl⟩
    · exact h.got k v hkv

/-- So it holds in every run. -/
theorem Board.Reached.inv (h : s.Reached b) (hb : b.syncState = 0) : s.Inv := by
  induction h with
  | refl => exact Board.inv_init hb
  | tail _ hstep ih => exact ih.step hstep

/-- The text stays the same, and so do the settings once they are set. -/
theorem Board.Inv.stays (h : s.Inv) (hs : s.Step s') :
    (∀ cfg, s.won = some cfg → s'.won = some cfg) ∧
    (s.cfg.syncState = 2 → s'.cfg = s.cfg) := by
  cases hs with
  | win hi hzero =>
    refine ⟨fun cfg hwon => ?_, fun htwo => by omega⟩
    rw [h.fresh hzero] at hwon
    cases hwon
  | write hi hread =>
    have hone := h.one (by rw [hi]; trivial)
    exact ⟨fun _ => id, fun htwo => by omega⟩
  | store hi =>
    have hone := h.one (by rw [hi]; trivial)
    exact ⟨fun _ => id, fun htwo => by omega⟩
  | _ => exact ⟨fun _ => id, fun _ => rfl⟩

/-- In every run of `init_boot_cfg` and the functions of the settings: one CPU sets the settings,
and when they are set they are what one call makes of its text. Nothing is read and no call returns
before, and nothing changes after. -/
theorem cfg_published (hb : b.syncState = 0) (h : s.Reached b) :
    (∀ i j, (s.stage i).Writes → (s.stage j).Writes → i = j) ∧
    (s.cfg.syncState = 2 → ∃ cfg, s.won = some cfg ∧ initBootCfg cfg b = .ok s.cfg) ∧
    (∀ k v, (k, v) ∈ s.got → s.cfg.syncState = 2 ∧ v = s.cfg.data k) ∧
    (s.returned = true → s.cfg.syncState = 2) ∧
    ∀ s', Relation.ReflTransGen Board.Step s s' →
      (∀ cfg, s.won = some cfg → s'.won = some cfg) ∧ (s.cfg.syncState = 2 → s'.cfg = s.cfg) := by
  have hinv := h.inv hb
  refine ⟨fun i j hi hj => hinv.writer hj hi, fun htwo => ?_, hinv.got, hinv.returned,
    fun s' hlater => ?_⟩
  · obtain ⟨cfg, hwon, hset⟩ := hinv.set htwo
    exact ⟨cfg, hwon, (initBootCfg_ok hb).mpr
      ⟨htwo, hset .stackSize, hset .heapInitSize, hset .heapSmlstBlock⟩⟩
  · induction hlater with
    | refl => exact ⟨fun _ => id, fun _ => rfl⟩
    | @tail t t' ht hstep ih =>
      obtain ⟨hwon, hcfg⟩ := ih
      have hreached : t.Reached b := h.trans ht
      obtain ⟨hwon', hcfg'⟩ := (hreached.inv hb).stays hstep
      refine ⟨fun cfg hw => hwon' cfg (hwon cfg hw), fun htwo => ?_⟩
      have heq := hcfg htwo
      exact (hcfg' (by rw [heq]; exact htwo)).trans heq

/-- A CPU waits while another one sets the settings, then asks for the one that is in the text. -/
theorem cfg_published_both : ∃ s : Board 2, s.Reached ⟨0, 0, 0, 0⟩ ∧ s.returned = true ∧
    s.got = [(.stackSize, 0x200000)] ∧ s.cfg.stackSize = 0x200000 ∧
      initBootCfg "stack_size=200000" ⟨0, 0, 0, 0⟩ = .ok s.cfg := by
  have hstack : Key.stackSize.setting.read (cfgLines "stack_size=200000") = .ok 0x200000 := by
    decide +kernel
  have hheap : Key.heapInitSize.setting.read (cfgLines "stack_size=200000") = .ok 0x1000000 := by
    decide +kernel
  have hblock : Key.heapSmlstBlock.setting.read (cfgLines "stack_size=200000") = .ok 0x20 := by
    decide +kernel
  have h₁ : Board.Reached (n := 2) ⟨0, 0, 0, 0⟩
      ((Board.init 2 ⟨0, 0, 0, 0⟩).goto 0 (.called "stack_size=200000")) := .single (.call rfl)
  have h₂ := h₁.tail (c := Board.goto _ 1 (.called "")) (.call rfl)
  have h₃ := h₂.tail (.win (i := 0) rfl rfl)
  have h₄ := h₃.tail (.wait (i := 1) rfl rfl)
  have h₅ := h₄.tail (.write (i := 0) rfl hstack)
  have h₆ := h₅.tail (.write (i := 0) rfl hheap)
  have h₇ := h₆.tail (.write (i := 0) rfl hblock)
  have h₈ := h₇.tail (.store (i := 0) rfl)
  have h₉ := h₈.tail (.stop (i := 1) rfl (by decide))
  have h₁₀ := h₉.tail (.ask (i := 1) (k := .stackSize) rfl)
  have h₁₁ := h₁₀.tail (.load (i := 1) rfl rfl)
  have h₁₂ := h₁₁.tail (.read (i := 1) rfl)
  obtain ⟨_, hset, hgot, _, _⟩ := cfg_published rfl h₁₂
  obtain ⟨cfg, hwon, hok⟩ := hset rfl
  cases hwon
  exact ⟨_, h₁₂, rfl, rfl, (hgot .stackSize 0x200000 (List.mem_singleton_self _)).2.symm, hok⟩

end Tauos.Cfg
