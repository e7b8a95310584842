import Tauos.Rust.Str
import Tauos.Rust.Word

/-!
# The boot configuration

`kernel/src/cfg.rs`: `init_boot_cfg` reads the kernel's settings from a text that the
bootloader has keys in as well. For each setting it takes the first line that starts with
the name of the setting. The key of such a line may go on after the name, and then it is
the key of somebody else.

> `boot_cfg_parsing_iff`: the texts from which every setting is read right, and the texts
> that give the same settings.
-/

namespace Tauos.Cfg

open Tauos.Rust

/-- One line of `krnl_boot_cfg!`. -/
structure Setting where
  name : String
  default : Nat
  deriving DecidableEq, Repr

def stackSize : Setting := ⟨"stack_size", 0x800000 - 0x1000⟩

def heapInitSize : Setting := ⟨"heap_init_size", 0x1000000⟩

def heapSmlstBlock : Setting := ⟨"heap_smlst_block", 0x20⟩

def settings : List Setting := [stackSize, heapInitSize, heapSmlstBlock]

/-- `CFG_SYNC_STATE`, and the `STATIC_DATA` of each setting. -/
structure BootCfg where
  syncState : Nat
  stackSize : Nat
  heapInitSize : Nat
  heapSmlstBlock : Nat
  deriving DecidableEq, Repr

/-- `cfg.split('\n')`. -/
def cfgLines (cfg : String) : List (List Char) := cfg.toList.splitOn '\n'

/-- What the first matching line has for a setting. -/
def readLine (kvp : List Char) : Except Fault Nat :=
  match splitOnce '=' kvp with
  | none => .error .assertion
  | some (_, str) =>
    match fromStrRadix (trim str) 16 with
    | none => .error .assertion
    | some value => .ok value

/-- What `init_boot_cfg` computes for a setting. -/
def Setting.read (x : Setting) (lines : List (List Char)) : Except Fault Nat :=
  match lines.find? fun txt => x.name.toList.isPrefixOf (trim txt) with
  | none => .ok x.default
  | some kvp => readLine kvp

/-- `init_boot_cfg`. -/
def initBootCfg (cfg : String) (b : BootCfg) : Except Fault BootCfg :=
  match b.syncState with
  | 0 => do
    let stackSize ← Cfg.stackSize.read (cfgLines cfg)
    let heapInitSize ← Cfg.heapInitSize.read (cfgLines cfg)
    let heapSmlstBlock ← Cfg.heapSmlstBlock.read (cfgLines cfg)
    return ⟨2, stackSize, heapInitSize, heapSmlstBlock⟩
  -- another core is at it, and this one waits
  | 1 => .error .fuel
  | 2 => .ok b
  | _ => .error .assertion

/-! ## What a configuration text says -/

/-- A letter, a digit or an underscore. -/
def isIdentChar (c : Char) : Bool := c.isAlphanum || c == '_'

/-- An identifier. -/
def isIdent : List Char → Bool
  | [] => false
  | c :: s => isIdentChar c && !c.isDigit && s.all isIdentChar

/-- The key and the value of a line `key = value`. -/
def pairOf (line : List Char) : Option (List Char × List Char) :=
  match splitOnce '=' line with
  | none => none
  | some (key, value) => if isIdent (trim key) then some (trim key, trim value) else none

/-- A blank line, a comment, or a key and a value; the kernel's own values are hex numbers. -/
def ConfigLine (line : List Char) : Prop :=
  (∀ c ∈ line, isWhitespace c = true) ∨
  (∃ ws text, (∀ c ∈ ws, isWhitespace c = true) ∧ line = ws ++ '#' :: text) ∨
  ∃ key value, pairOf line = some (key, value) ∧
    ∀ x ∈ settings, x.name.toList = key → Digits 16 value ∧ numberValue 16 value < 2 ^ 64

def ConfigText (cfg : String) : Prop := ∀ line ∈ cfgLines cfg, ConfigLine line

/-- The value of a line with this key. -/
def Setting.valueIn (x : Setting) (line : List Char) : Option (List Char) :=
  match pairOf line with
  | none => none
  | some (key, value) => if key = x.name.toList then some value else none

/-- The value of the first line with this key, or the default. -/
def Setting.value (x : Setting) (lines : List (List Char)) : Nat :=
  match lines.findSome? x.valueIn with
  | none => x.default
  | some value => numberValue 16 value

/-- A line whose key starts with the name. -/
def Setting.likeIn (x : Setting) (line : List Char) : Option (List Char × List Char) :=
  (pairOf line).filter fun p => x.name.toList.isPrefixOf p.1

/-- The first line whose key starts with the name has the name for its key, or happens to have
the value of the setting. -/
def Undisturbed (x : Setting) (lines : List (List Char)) : Prop :=
  ∀ {key value}, lines.findSome? x.likeIn = some (key, value) →
    key = x.name.toList ∨ fromStrRadix value 16 = some (x.value lines)

instance (x : Setting) (lines : List (List Char)) : Decidable (Undisturbed x lines) :=
  decidable_of_iff (∀ p ∈ lines.findSome? x.likeIn,
      p.1 = x.name.toList ∨ fromStrRadix p.2 16 = some (x.value lines))
    ⟨fun h {key value} hp => h (key, value) hp, fun h _ hp => h hp⟩

/-- The first `init_boot_cfg` sets each setting to its value. -/
def Parses (cfg : String) : Prop :=
  ∀ {b : BootCfg}, b.syncState = 0 → initBootCfg cfg b =
    .ok ⟨2, stackSize.value (cfgLines cfg), heapInitSize.value (cfgLines cfg),
      heapSmlstBlock.value (cfgLines cfg)⟩

/-- Lines with different keys change places, or a line with another key is added. -/
inductive Edit : List (List Char) → List (List Char) → Prop
  | swap {before after : List (List Char)} {a b : List Char} :
    ((pairOf a).map Prod.fst = none ∨ (pairOf a).map Prod.fst ≠ (pairOf b).map Prod.fst) →
    Edit (before ++ a :: b :: after) (before ++ b :: a :: after)
  | add {before after : List (List Char)} {a : List Char} :
    (∀ x ∈ settings, (pairOf a).map Prod.fst ≠ some x.name.toList) →
    Edit (before ++ after) (before ++ a :: after)

/-! ## Lines that match -/

variable {x : Setting} {line : List Char} {lines : List (List Char)}

theorem settings_ident (hx : x ∈ settings) : isIdent x.name.toList = true := by
  revert x
  decide

theorem isIdentChar_range {c : Char} (h : isIdentChar c = true) :
    (48 ≤ c.toNat ∧ c.toNat ≤ 57) ∨ (65 ≤ c.toNat ∧ c.toNat ≤ 90) ∨ c.toNat = 95 ∨
      (97 ≤ c.toNat ∧ c.toNat ≤ 122) := by
  delta isIdentChar Char.isAlphanum Char.isAlpha Char.isUpper Char.isLower Char.isDigit at h
  simp only [Bool.or_eq_true, Bool.and_eq_true, decide_eq_true_eq, beq_iff_eq, ge_iff_le,
    UInt32.le_iff_toNat_le] at h
  rcases h with ((h | h) | h) | rfl
  · exact Or.inr (Or.inl h)
  · exact Or.inr (Or.inr (Or.inr h))
  · exact Or.inl h
  · exact Or.inr (Or.inr (Or.inl rfl))

theorem isIdentChar_not_whitespace {c : Char} (h : isIdentChar c = true) :
    isWhitespace c = false := by
  have hrange := isIdentChar_range h
  simp only [isWhitespace, decide_eq_false_iff_not]
  omega

theorem isIdent_cons {key : List Char} (h : isIdent key = true) :
    ∃ c s, key = c :: s ∧ isIdentChar c = true ∧ ∀ c' ∈ key, isIdentChar c' = true := by
  cases key with
  | nil => cases h
  | cons c s =>
    simp only [isIdent, Bool.and_eq_true, List.all_eq_true] at h
    obtain ⟨⟨hc, _⟩, hs⟩ := h
    refine ⟨c, s, rfl, hc, fun c' hc' => ?_⟩
    rcases List.mem_cons.mp hc' with rfl | hc'
    · exact hc
    · exact hs c' hc'

/-- A line with a key, trimmed, is the key, then white space and `=`. -/
theorem trim_of_pairOf {key value : List Char} (h : pairOf line = some (key, value)) :
    isIdent key = true ∧ ∃ c rest, (isWhitespace c = true ∨ c = '=') ∧
      trim line = key ++ c :: rest := by
  unfold pairOf at h
  split at h
  next => cases h
  next k v hsplit =>
    split at h
    next hident =>
      cases h
      refine ⟨hident, ?_⟩
      obtain ⟨before, after, hbefore, hafter, hk⟩ := trim_split k
      obtain ⟨c, s, hkey, hc, _⟩ := isIdent_cons hident
      have hline : line = before ++ c :: (s ++ after ++ '=' :: v) := by
        rw [splitOnce_eq hsplit, hk, hkey]
        simp
      have htrim : trim line = trim k ++ after ++ '=' :: v.rdropWhile isWhitespace := by
        rw [hline, trim_append_cons hbefore (isIdentChar_not_whitespace hc),
          rdropWhile_append_cons _ _ (by decide), hkey]
        simp
      cases after with
      | nil => exact ⟨'=', _, Or.inr rfl, by rw [htrim, List.append_nil]⟩
      | cons w after =>
        refine ⟨w, after ++ '=' :: v.rdropWhile isWhitespace, Or.inl (hafter w List.mem_cons_self),
          ?_⟩
        rw [htrim]
        simp
    next => cases h

/-- Only white space and `=` come after a key, so that a name is in front of the line if and only if
it is in front of the key. -/
theorem prefix_key_iff {name key rest : List Char} {c : Char}
    (hname : ∀ c ∈ name, isIdentChar c = true)
    (hc : isIdentChar c = false) : name <+: key ++ c :: rest ↔ name <+: key := by
  constructor
  · intro h
    rcases List.prefix_or_prefix_of_prefix h (List.prefix_append key _) with hle | hle
    · exact hle
    · obtain ⟨t, rfl⟩ := hle
      cases t with
      | nil =>
        exact ⟨[], by rw [List.append_nil, List.append_nil]⟩
      | cons c' t =>
        rw [List.prefix_append_right_inj] at h
        obtain ⟨rfl, _⟩ := List.cons_prefix_cons.mp h
        rw [hname c' (by simp)] at hc
        cases hc
  · intro h
    exact h.trans (List.prefix_append key _)

theorem pairOf_comment {ws text : List Char} (hws : ∀ c ∈ ws, isWhitespace c = true) :
    pairOf (ws ++ '#' :: text) = none := by
  have heq : '=' ∉ ws ++ ['#'] := by
    intro hmem
    rcases List.mem_append.mp hmem with hmem | hmem
    · exact absurd (hws _ hmem) (by decide)
    · exact absurd (List.mem_singleton.mp hmem) (by decide)
  have hsplit := splitOnce_append heq text
  rw [List.append_assoc, List.singleton_append] at hsplit
  rw [pairOf, hsplit]
  cases splitOnce '=' text with
  | none => rfl
  | some p =>
    have htrim : trim (ws ++ ['#'] ++ p.1) = '#' :: p.1.rdropWhile isWhitespace := by
      rw [List.append_assoc]
      exact trim_append_cons hws (by decide)
    rw [Option.map_some]
    dsimp only
    rw [htrim]
    rfl

/-- The lines that start with the name are those with a key that does. -/
theorem matches_iff (hx : x ∈ settings) (hline : ConfigLine line) :
    x.name.toList.isPrefixOf (trim line) = (x.likeIn line).isSome := by
  obtain ⟨c, s, hname, hc, hall⟩ := isIdent_cons (settings_ident hx)
  rcases hline with hblank | ⟨ws, text, hws, rfl⟩ | ⟨key, value, hpair, _⟩
  · have heq : '=' ∉ line := fun hmem => absurd (hblank _ hmem) (by decide)
    rw [trim_of_blank hblank, hname, Setting.likeIn, pairOf, splitOnce_eq_none.mpr heq]
    rfl
  · rw [Setting.likeIn, pairOf_comment hws, trim_append_cons hws (by decide), hname,
      List.isPrefixOf]
    have hne : (c == '#') = false := by
      rw [beq_eq_false_iff_ne]
      rintro rfl
      exact absurd hc (by decide)
    rw [hne]
    rfl
  · obtain ⟨hident, w, rest, hw, htrim⟩ := trim_of_pairOf hpair
    have hw' : isIdentChar w = false := by
      by_contra hcon
      have hident := Bool.eq_true_of_not_eq_false hcon
      rcases hw with hw | rfl
      · rw [isIdentChar_not_whitespace hident] at hw
        cases hw
      · exact absurd hident (by decide)
    rw [Setting.likeIn, hpair, htrim, Bool.eq_iff_iff, List.isPrefixOf_iff_prefix,
      prefix_key_iff hall hw',
      ← List.isPrefixOf_iff_prefix]
    simp [Option.filter]

theorem pairOf_of_likeIn {p : List Char × List Char} (h : x.likeIn line = some p) :
    pairOf line = some p ∧ x.name.toList <+: p.1 := by
  obtain ⟨hpair, hmatch⟩ := Option.filter_eq_some_iff.mp h
  exact ⟨hpair, List.isPrefixOf_iff_prefix.mp hmatch⟩

/-- `split_once` and `trim` give the value of a line with a key. -/
theorem readLine_of_pairOf {key value : List Char} (h : pairOf line = some (key, value)) :
    readLine line = match fromStrRadix value 16 with
      | none => .error .assertion
      | some n => .ok n := by
  unfold pairOf at h
  split at h
  next => cases h
  next k v hsplit =>
    split at h
    next =>
      cases h
      rw [readLine, hsplit]
    next => cases h

/-- The line that is found. -/
theorem find_eq (hx : x ∈ settings) :
    ∀ {lines : List (List Char)}, (∀ line ∈ lines, ConfigLine line) →
    x.read lines = match lines.findSome? x.likeIn with
      | none => .ok x.default
      | some (_, value) =>
        match fromStrRadix value 16 with
        | none => .error .assertion
        | some n => .ok n := by
  intro lines
  induction lines with
  | nil => exact fun _ => rfl
  | cons line lines ih =>
    intro h
    have hmatch := matches_iff hx (h line List.mem_cons_self)
    have hrest := ih fun l hl => h l (List.mem_cons_of_mem _ hl)
    unfold Setting.read at hrest ⊢
    rw [List.find?_cons, List.findSome?_cons, hmatch]
    cases hlike : x.likeIn line with
    | none => exact hrest
    | some p =>
      obtain ⟨hpair, _⟩ := pairOf_of_likeIn hlike
      exact readLine_of_pairOf hpair

/-! ## The settings -/

theorem valueIn_eq_none (h : x.likeIn line = none) : x.valueIn line = none := by
  unfold Setting.valueIn
  cases hpair : pairOf line with
  | none => rfl
  | some p =>
    refine if_neg fun hkey => ?_
    rw [Setting.likeIn, hpair, Option.filter_some, hkey] at h
    simp at h

theorem valueIn_of_pairOf {value : List Char} (h : pairOf line = some (x.name.toList, value)) :
    x.valueIn line = some value := by
  rw [Setting.valueIn, h]
  exact if_pos rfl

theorem Setting.value_of_none (h : lines.findSome? x.likeIn = none) :
    x.value lines = x.default := by
  have hnone : lines.findSome? x.valueIn = none := by
    rw [List.findSome?_eq_none_iff] at h ⊢
    exact fun line hline => valueIn_eq_none (h line hline)
  rw [Setting.value, hnone]

/-- A first line with the name itself for its key has the value of the setting. -/
theorem Setting.value_of_exact (hx : x ∈ settings) (hall : ∀ line ∈ lines, ConfigLine line)
    {value : List Char} (h : lines.findSome? x.likeIn = some (x.name.toList, value)) :
    fromStrRadix value 16 = some (x.value lines) := by
  obtain ⟨before, line, after, rfl, hlike, hbefore⟩ := List.findSome?_eq_some_iff.mp h
  obtain ⟨hpair, _⟩ := pairOf_of_likeIn hlike
  have hfind : (before ++ line :: after).findSome? x.valueIn = some value :=
    List.findSome?_eq_some_iff.mpr ⟨before, line, after, rfl, valueIn_of_pairOf hpair,
      fun l hl => valueIn_eq_none (hbefore l hl)⟩
  have hnumber : Digits 16 value ∧ numberValue 16 value < 2 ^ 64 := by
    rcases hall line (by simp) with hblank | ⟨ws, text, hws, rfl⟩ | ⟨key, value', hpair', hvalue⟩
    · have heq : '=' ∉ line := fun hmem => absurd (hblank _ hmem) (by decide)
      rw [pairOf, splitOnce_eq_none.mpr heq] at hpair
      cases hpair
    · rw [pairOf_comment hws] at hpair
      cases hpair
    · rw [hpair] at hpair'
      cases hpair'
      exact hvalue x hx rfl
  rw [Setting.value, hfind]
  exact fromStrRadix_eq hnumber.1 hnumber.2

/-- A setting is read right if and only if no other key gets in its way. -/
theorem read_eq_iff (hx : x ∈ settings) (hall : ∀ line ∈ lines, ConfigLine line) :
    x.read lines = .ok (x.value lines) ↔ Undisturbed x lines := by
  rw [find_eq hx hall]
  unfold Undisturbed
  cases hfind : lines.findSome? x.likeIn with
  | none =>
    rw [Setting.value_of_none hfind]
    refine ⟨fun _ => ?_, fun _ => rfl⟩
    intro key value hc
    cases hc
  | some p =>
    obtain ⟨key, value⟩ := p
    have hread : ∀ r : Option Nat, (match r with
        | none => .error .assertion
        | some n => .ok n : Except Fault Nat) = .ok (x.value lines) ↔ r = some (x.value lines) := by
      intro r
      cases r with
      | none => simp
      | some n => simp
    dsimp only
    rw [hread]
    constructor
    · intro hvalue key' value' heq
      cases heq
      exact Or.inr hvalue
    · intro h
      rcases h rfl with rfl | hvalue
      · exact Setting.value_of_exact hx hall hfind
      · exact hvalue

theorem initBootCfg_ok {cfg : String} {b b' : BootCfg} (hb : b.syncState = 0) :
    initBootCfg cfg b = .ok b' ↔
      b'.syncState = 2 ∧ stackSize.read (cfgLines cfg) = .ok b'.stackSize ∧
      heapInitSize.read (cfgLines cfg) = .ok b'.heapInitSize ∧
      heapSmlstBlock.read (cfgLines cfg) = .ok b'.heapSmlstBlock := by
  unfold initBootCfg
  rw [hb]
  constructor
  · intro h
    obtain ⟨v₁, h₁, h⟩ := bind_ok h
    obtain ⟨v₂, h₂, h⟩ := bind_ok h
    obtain ⟨v₃, h₃, h⟩ := bind_ok h
    cases h
    exact ⟨rfl, h₁, h₂, h₃⟩
  · intro h
    obtain ⟨hsync, h₁, h₂, h₃⟩ := h
    rw [h₁, h₂, h₃, ← hsync]
    rfl

theorem parses_iff {cfg : String} (h : ConfigText cfg) :
    Parses cfg ↔ ∀ x ∈ settings, Undisturbed x (cfgLines cfg) := by
  have hstack := read_eq_iff (x := stackSize) (by simp [settings]) h
  have hheap := read_eq_iff (x := heapInitSize) (by simp [settings]) h
  have hblock := read_eq_iff (x := heapSmlstBlock) (by simp [settings]) h
  constructor
  · intro hp
    obtain ⟨_, h₁, h₂, h₃⟩ := (initBootCfg_ok rfl).mp (hp (b := ⟨0, 0, 0, 0⟩) rfl)
    intro x hx
    simp only [settings, List.mem_cons, List.not_mem_nil, or_false] at hx
    rcases hx with rfl | rfl | rfl
    · exact hstack.mp h₁
    · exact hheap.mp h₂
    · exact hblock.mp h₃
  · intro hall b hb
    exact (initBootCfg_ok hb).mpr ⟨rfl, hstack.mpr (hall _ (by simp [settings])),
      hheap.mpr (hall _ (by simp [settings])), hblock.mpr (hall _ (by simp [settings]))⟩

/-! ## Texts with the same settings -/

theorem findSome?_swap {α β : Type} {f : α → Option β} {before after : List α} {a b : α}
    (h : f a = none ∨ f b = none) :
    (before ++ a :: b :: after).findSome? f = (before ++ b :: a :: after).findSome? f := by
  rw [List.findSome?_append, List.findSome?_append]
  rcases h with h | h
  · simp only [List.findSome?_cons, h]
  · simp only [List.findSome?_cons, h]

theorem key_of_valueIn {value : List Char} (h : x.valueIn line = some value) :
    (pairOf line).map Prod.fst = some x.name.toList := by
  unfold Setting.valueIn at h
  split at h
  next => cases h
  next key v hpair =>
    split at h
    next hkey =>
      rw [hpair, Option.map_some, hkey]
    next => cases h

/-- Edits keep the value of every setting. -/
theorem Edit.value_eq {lines' : List (List Char)} (h : Edit lines lines') (hx : x ∈ settings) :
    x.value lines = x.value lines' := by
  have hfind : lines.findSome? x.valueIn = lines'.findSome? x.valueIn := by
    cases h with
    | @swap before after a b hkeys =>
      refine findSome?_swap ?_
      cases ha : x.valueIn a with
      | none => exact Or.inl rfl
      | some v =>
        cases hb : x.valueIn b with
        | none => exact Or.inr rfl
        | some w =>
          rw [key_of_valueIn ha, key_of_valueIn hb] at hkeys
          simp at hkeys
    | @add before after a hkey =>
      have hnone : x.valueIn a = none := by
        cases ha : x.valueIn a with
        | none => rfl
        | some v => exact absurd (key_of_valueIn ha) (hkey x hx)
      rw [List.findSome?_append, List.findSome?_append, List.findSome?_cons, hnone]
  rw [Setting.value, Setting.value, hfind]

theorem edits_value_eq {lines' : List (List Char)} (h : Relation.ReflTransGen Edit lines lines')
    (hx : x ∈ settings) : x.value lines = x.value lines' := by
  induction h with
  | refl => rfl
  | tail _ hedit ih => exact ih.trans (hedit.value_eq hx)

/-- `init_boot_cfg` sets every setting to the value of the first line with its key, or to its
default, if and only if the first line whose key starts with the name of a setting has no longer
key (or the right value by chance). Between such texts, changing the order of lines with different
keys and adding lines with other keys makes no difference. -/
theorem boot_cfg_parsing_iff {cfg : String} (h : ConfigText cfg) :
    (Parses cfg ↔ ∀ x ∈ settings, Undisturbed x (cfgLines cfg)) ∧
    ∀ {cfg' : String}, ConfigText cfg' → Relation.ReflTransGen Edit (cfgLines cfg) (cfgLines cfg') →
      (∀ x ∈ settings, Undisturbed x (cfgLines cfg)) →
        (∀ x ∈ settings, Undisturbed x (cfgLines cfg')) →
      ∀ {b : BootCfg}, b.syncState = 0 → initBootCfg cfg b = initBootCfg cfg' b := by
  refine ⟨parses_iff h, fun {cfg'} h' hedits hcfg hcfg' {b} hb => ?_⟩
  rw [(parses_iff h).mpr hcfg hb, (parses_iff h').mpr hcfg' hb]
  rw [edits_value_eq hedits (x := stackSize) (by simp [settings]),
    edits_value_eq hedits (x := heapInitSize) (by simp [settings]),
    edits_value_eq hedits (x := heapSmlstBlock) (by simp [settings])]

theorem configLine_pair (key value : List Char) (hpair : pairOf line = some (key, value))
    (hvalue : ∀ x ∈ settings, x.name.toList = key →
      (value ≠ [] ∧ value.all fun c => (toDigit c 16).isSome) ∧ numberValue 16 value < 2 ^ 64) :
    ConfigLine line := by
  refine Or.inr (Or.inr ⟨key, value, hpair, fun x hx hkey => ?_⟩)
  obtain ⟨⟨hne, hdigits⟩, hlt⟩ := hvalue x hx hkey
  exact ⟨⟨hne, List.all_eq_true.mp hdigits⟩, hlt⟩

/-- The bootloader's key comes first. -/
def longerKey : String := "stack_size_max=1\nstack_size=2000"

theorem longerKey_config : ConfigText longerKey := by
  have hlines : cfgLines longerKey = ["stack_size_max=1".toList, "stack_size=2000".toList] := by
    decide +kernel
  intro line hline
  rw [hlines, List.mem_cons, List.mem_singleton] at hline
  rcases hline with rfl | rfl
  · exact configLine_pair "stack_size_max".toList "1".toList (by decide +kernel) (by decide +kernel)
  · exact configLine_pair "stack_size".toList "2000".toList (by decide +kernel) (by decide +kernel)

/-- Its value is taken for the size of the stacks. -/
theorem longer_key_read : ConfigText longerKey ∧
    initBootCfg longerKey ⟨0, 0, 0, 0⟩ = .ok ⟨2, 1, 0x1000000, 0x20⟩ ∧ ¬ Parses longerKey := by
  have hrun : initBootCfg longerKey ⟨0, 0, 0, 0⟩ = .ok ⟨2, 1, 0x1000000, 0x20⟩ := by decide +kernel
  refine ⟨longerKey_config, hrun, fun hp => ?_⟩
  have hvalue : stackSize.value (cfgLines longerKey) = 0x2000 := by decide +kernel
  have hset := hp (b := ⟨0, 0, 0, 0⟩) rfl
  rw [hrun, hvalue] at hset
  injection hset with hset
  injection hset with _ hstack
  exact absurd hstack (by decide)

/-- The file of the repository, and a size for the stacks. -/
def ownKey : String := "kernel=sys/kernel\n\n# all values are hex numbers\n stack_size = 7FF000"

theorem ownKey_config : ConfigText ownKey := by
  have hlines : cfgLines ownKey = ["kernel=sys/kernel".toList, [],
      "# all values are hex numbers".toList, " stack_size = 7FF000".toList] := by
    decide +kernel
  intro line hline
  rw [hlines] at hline
  simp only [List.mem_cons, List.not_mem_nil, or_false] at hline
  rcases hline with rfl | rfl | rfl | rfl
  · exact configLine_pair "kernel".toList "sys/kernel".toList (by decide +kernel)
      (by decide +kernel)
  · exact Or.inl fun c hc => absurd hc List.not_mem_nil
  · exact Or.inr (Or.inl ⟨[], " all values are hex numbers".toList,
      fun c hc => absurd hc List.not_mem_nil,
      by decide +kernel⟩)
  · exact configLine_pair "stack_size".toList "7FF000".toList (by decide +kernel)
      (by decide +kernel)

theorem boot_cfg_parsing_own : ConfigText ownKey ∧ Parses ownKey := by
  refine ⟨ownKey_config, (boot_cfg_parsing_iff ownKey_config).1.mpr ?_⟩
  decide +kernel

end Tauos.Cfg
