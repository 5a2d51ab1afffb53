import Mathlib.Data.List.ReduceOption
import RvvmHal.Menu.Render

/-!
# Keys from a terminal

`uart_decode_byte` of `ui.c` turns the bytes that a terminal sends into keys. Escape is a key of its
own, and also begins the three bytes of an arrow. A byte that shows that an Escape stood alone is
dropped with it, so the keys come through as they were typed when no key follows an Escape, and then
only (`keys_decoded_iff`).
-/

namespace RvvmHal.Menu

deriving instance DecidableEq for UiKey

/-! ## The decoder -/

/-- `uart_esc_state`: 0, 1 and 2. -/
inductive EscState
  | neutral
  | esc
  | bracket
  deriving DecidableEq

/-- `uart_decode_byte`: the next state, and the key unless it is `UI_KEY_NONE`. -/
def uartDecodeByte (b : UInt8) : EscState → EscState × Option UiKey
  | .neutral =>
    if b = 0x1B then (.esc, none)
    else if b = 0x0D ∨ b = 0x0A then (.neutral, some .enter)
    else if b = 0x7F ∨ b = 0x08 then (.neutral, some .back)
    else if 0x20 ≤ b ∧ b < 0x7F then (.neutral, some (.char b))
    else (.neutral, none)
  | .esc => if b = 0x5B then (.bracket, none) else (.neutral, some .esc)
  | .bracket =>
    (.neutral,
      if b = 0x41 then some .up
      else if b = 0x42 then some .down
      else if b = 0x43 then some .right
      else if b = 0x44 then some .left
      else none)

/-- `uart_poll_key`, on what `uart_getc_nb` returns. -/
def uartPollKey (c : Option UInt8) (s : EscState) : EscState × Option UiKey :=
  match c with
  | none => (s, none)
  | some b => uartDecodeByte b s

/-- The keys of a series of polls. -/
def pollKeys : EscState → List (Option UInt8) → EscState × List UiKey
  | s, [] => (s, [])
  | s, c :: polls =>
    let p := uartPollKey c s
    let q := pollKeys p.1 polls
    (q.1, p.2.toList ++ q.2)

/-- The keys of a series of bytes. -/
def decodeBytes : EscState → List UInt8 → EscState × List UiKey
  | s, [] => (s, [])
  | s, b :: bytes =>
    let p := uartDecodeByte b s
    let q := decodeBytes p.1 bytes
    (q.1, p.2.toList ++ q.2)

/-! ## The terminal -/

/-- What a terminal sends for Enter and for Backspace. -/
structure Terminal where
  enter : UInt8
  back : UInt8
  enter_eq : enter = 0x0D ∨ enter = 0x0A
  back_eq : back = 0x7F ∨ back = 0x08

/-- What a terminal sends for a key. -/
def Terminal.bytes (T : Terminal) : UiKey → List UInt8
  | .up => [0x1B, 0x5B, 0x41]
  | .down => [0x1B, 0x5B, 0x42]
  | .right => [0x1B, 0x5B, 0x43]
  | .left => [0x1B, 0x5B, 0x44]
  | .enter => [T.enter]
  | .esc => [0x1B]
  | .back => [T.back]
  | .char c => [c]

/-- A key that a terminal has; characters are printable. -/
def IsLogical : UiKey → Prop
  | .char c => 0x20 ≤ c ∧ c < 0x7F
  | _ => True

/-- The key that is still pending in a state. -/
def pending : EscState → List UiKey
  | .esc => [.esc]
  | _ => []

/-- However the polls are timed, the keys come out as they were typed, but for an Escape that is
still pending. -/
def Decoded (T : Terminal) (keys : List UiKey) : Prop :=
  ∀ polls : List (Option UInt8), polls.reduceOption = keys.flatMap T.bytes →
    (pollKeys .neutral polls).2 ++ pending (pollKeys .neutral polls).1 = keys

section

variable {T : Terminal} {s : EscState} {k : UiKey} {keys : List UiKey}

/-- Polls without a byte change nothing. -/
theorem pollKeys_eq (s : EscState) (polls : List (Option UInt8)) :
    pollKeys s polls = decodeBytes s polls.reduceOption := by
  induction polls generalizing s with
  | nil => rfl
  | cons c polls ih =>
    cases c with
    | none =>
      rw [List.reduceOption_cons_of_none, ← ih]
      rfl
    | some b =>
      rw [List.reduceOption_cons_of_some, decodeBytes, ← ih]
      rfl

theorem decoded_iff (T : Terminal) (keys : List UiKey) :
    Decoded T keys ↔ (decodeBytes .neutral (keys.flatMap T.bytes)).2 ++
      pending (decodeBytes .neutral (keys.flatMap T.bytes)).1 = keys := by
  constructor
  · intro h
    have hbytes : ((keys.flatMap T.bytes).map some).reduceOption = keys.flatMap T.bytes := by
      rw [List.reduceOption, List.filterMap_map]
      exact List.filterMap_some
    have hpolls := h _ hbytes
    rwa [pollKeys_eq, hbytes] at hpolls
  · intro h polls hpolls
    rw [pollKeys_eq, hpolls]
    exact h

theorem decodeBytes_append (s : EscState) (xs ys : List UInt8) :
    decodeBytes s (xs ++ ys) = ((decodeBytes (decodeBytes s xs).1 ys).1,
      (decodeBytes s xs).2 ++ (decodeBytes (decodeBytes s xs).1 ys).2) := by
  induction xs generalizing s with
  | nil => rfl
  | cons b xs ih =>
    rw [List.cons_append, decodeBytes, decodeBytes, ih, List.append_assoc]

/-- Any key but Escape comes through. -/
theorem decodeBytes_key (hk : IsLogical k) (hesc : k ≠ .esc) :
    decodeBytes .neutral (T.bytes k) = (.neutral, [k]) := by
  cases k with
  | esc => exact absurd rfl hesc
  | up | down | left | right => rfl
  | enter => obtain h | h := T.enter_eq <;> rw [Terminal.bytes, h] <;> rfl
  | back => obtain h | h := T.back_eq <;> rw [Terminal.bytes, h] <;> rfl
  | char c =>
    obtain ⟨hge, hlt⟩ := hk
    have hne (b : UInt8) (hb : b < 0x20 ∨ 0x7F ≤ b) : c ≠ b := by
      rintro rfl
      grind
    rw [Terminal.bytes, decodeBytes, uartDecodeByte, if_neg (hne _ (by decide)),
      if_neg (not_or.2 ⟨hne _ (by decide), hne _ (by decide)⟩),
      if_neg (not_or.2 ⟨hne _ (by decide), hne _ (by decide)⟩), if_pos ⟨hge, hlt⟩]
    rfl

/-! ## How many bytes the keys stand for -/

/-- The bytes of the keys. -/
def cost (T : Terminal) (keys : List UiKey) : ℕ := (keys.flatMap T.bytes).length

/-- The bytes that a state has taken in. -/
def held : EscState → ℕ
  | .neutral => 0
  | .esc => 1
  | .bracket => 2

/-- **A byte adds at most one byte to the keys**, and the byte after a lone Escape adds none. -/
theorem cost_decodeByte (b : UInt8) (s : EscState) :
    cost T (uartDecodeByte b s).2.toList + held (uartDecodeByte b s).1 ≤ held s + 1 ∧
      (s = .esc → b ≠ 0x5B →
        cost T (uartDecodeByte b s).2.toList + held (uartDecodeByte b s).1 < held s + 1) := by
  cases s with
  | neutral =>
    refine ⟨?_, fun h => (by cases h)⟩
    rw [uartDecodeByte]
    split_ifs <;> exact Nat.le_of_ble_eq_true rfl
  | esc =>
    rw [uartDecodeByte]
    split_ifs with hb
    · exact ⟨Nat.le_refl _, fun _ hne => absurd hb hne⟩
    · exact ⟨Nat.le_succ _, fun _ _ => Nat.lt_succ_self _⟩
  | bracket =>
    refine ⟨?_, fun h => (by cases h)⟩
    rw [uartDecodeByte]
    split_ifs <;> exact Nat.le_of_ble_eq_true rfl

theorem cost_append (T : Terminal) (keys keys' : List UiKey) :
    cost T (keys ++ keys') = cost T keys + cost T keys' := by
  rw [cost, List.flatMap_append, List.length_append]
  rfl

theorem cost_decodeBytes (s : EscState) (bytes : List UInt8) :
    cost T (decodeBytes s bytes).2 + held (decodeBytes s bytes).1 ≤ held s + bytes.length := by
  induction bytes generalizing s with
  | nil => exact (Nat.zero_add _).le
  | cons b bytes ih =>
    have hb := (cost_decodeByte (T := T) b s).1
    have hrest := ih (uartDecodeByte b s).1
    rw [decodeBytes, List.length_cons]
    dsimp only
    rw [cost_append]
    omega

theorem cost_pending (s : EscState) : cost T (pending s) ≤ held s := by
  cases s <;> exact Nat.le_of_ble_eq_true rfl

/-- The first byte of a key. -/
theorem exists_bytes (hbracket : k ≠ .char 0x5B) :
    ∃ b rest, T.bytes k = b :: rest ∧ b ≠ 0x5B := by
  cases k with
  | up | down | left | right | esc => exact ⟨0x1B, _, rfl, by decide⟩
  | enter =>
    refine ⟨T.enter, [], rfl, ?_⟩
    obtain h | h := T.enter_eq <;> rw [h] <;> decide
  | back =>
    refine ⟨T.back, [], rfl, ?_⟩
    obtain h | h := T.back_eq <;> rw [h] <;> decide
  | char c => exact ⟨c, [], rfl, fun h => hbracket (congrArg UiKey.char h)⟩

/-- **An Escape before another key loses a byte.** -/
theorem cost_lost (hbracket : ¬ [.esc, .char 0x5B] <:+: k :: keys)
    (hlogical : ∀ k' ∈ k :: keys, IsLogical k') (hesc : .esc ∈ (k :: keys).dropLast) :
    cost T (decodeBytes .neutral ((k :: keys).flatMap T.bytes)).2 +
      held (decodeBytes .neutral ((k :: keys).flatMap T.bytes)).1 < cost T (k :: keys) := by
  induction keys generalizing k with
  | nil => cases hesc
  | cons k' keys ih =>
    have hlogical' := List.forall_mem_of_forall_mem_cons hlogical
    by_cases hk : k = .esc
    · -- the first byte of the next key is dropped
      subst hk
      obtain ⟨b, rest, hbytes, hb⟩ := exists_bytes (T := T) (k := k') fun h =>
        hbracket ⟨[], keys, by rw [h]; rfl⟩
      obtain ⟨tail, htail⟩ : ∃ tail, tail = rest ++ keys.flatMap T.bytes := ⟨_, rfl⟩
      have hsent : (UiKey.esc :: k' :: keys).flatMap T.bytes = 0x1B :: b :: tail := by
        rw [List.flatMap_cons, List.flatMap_cons, hbytes, htail]
        rfl
      have hfirst : decodeBytes .neutral (0x1B :: b :: tail) = decodeBytes .esc (b :: tail) := rfl
      have hlost := (cost_decodeByte (T := T) b .esc).2 rfl hb
      have hheld : held .esc = 1 := rfl
      have hrest := cost_decodeBytes (T := T) (uartDecodeByte b .esc).1 tail
      have hall : cost T (.esc :: k' :: keys) = tail.length + 1 + 1 := by
        rw [cost, hsent]
        rfl
      rw [hsent, hfirst, decodeBytes, hall]
      dsimp only
      rw [cost_append]
      omega
    · have hcome := decodeBytes_key (T := T) (hlogical k List.mem_cons_self) hk
      have hinfix : ¬ [.esc, .char 0x5B] <:+: k' :: keys := fun h =>
        hbracket (h.trans (List.suffix_cons k _).isInfix)
      have hrest := ih hinfix hlogical' (by
        rw [List.dropLast_cons_cons] at hesc
        exact (List.mem_cons.1 hesc).resolve_left (Ne.symm hk))
      have hkey : cost T ([k] ++ (k' :: keys)) = cost T [k] + cost T (k' :: keys) :=
        cost_append T [k] (k' :: keys)
      rw [List.singleton_append] at hkey
      rw [List.flatMap_cons, decodeBytes_append, hcome, hkey]
      dsimp only
      rw [cost_append]
      omega

/-- Keys without an Escape but at the end. -/
theorem decodeBytes_of_last (hlogical : ∀ k ∈ keys, IsLogical k) (hesc : .esc ∉ keys.dropLast) :
    (decodeBytes .neutral (keys.flatMap T.bytes)).2 ++
      pending (decodeBytes .neutral (keys.flatMap T.bytes)).1 = keys := by
  induction keys with
  | nil => rfl
  | cons k keys ih =>
    by_cases hk : k = .esc
    · cases keys with
      | nil =>
        rw [hk]
        rfl
      | cons k' keys =>
        rw [hk, List.dropLast_cons_cons] at hesc
        exact absurd List.mem_cons_self hesc
    · have hrest := ih (List.forall_mem_of_forall_mem_cons hlogical) fun hmem =>
        hesc (by
          cases keys with
          | nil => cases hmem
          | cons k' keys => exact List.mem_cons_of_mem k hmem)
      rw [List.flatMap_cons, decodeBytes_append, decodeBytes_key (hlogical k List.mem_cons_self) hk]
      exact congrArg (k :: ·) hrest

/-- **No key is lost if no Escape is followed by another key, and only then.** -/
theorem keys_decoded_iff (hlogical : ∀ k ∈ keys, IsLogical k)
    (hbracket : ¬ [.esc, .char 0x5B] <:+: keys) :
    Decoded T keys ↔ .esc ∉ keys.dropLast := by
  rw [decoded_iff]
  constructor
  · intro hdecoded hesc
    cases keys with
    | nil => cases hesc
    | cons k keys =>
      have hlost := cost_lost (T := T) hbracket hlogical hesc
      have hpending := cost_pending (T := T)
        (decodeBytes .neutral ((k :: keys).flatMap T.bytes)).1
      have hcost := congrArg (cost T) hdecoded
      rw [cost_append] at hcost
      omega
  · exact decodeBytes_of_last hlogical

end

/-- A terminal that sends a carriage return for Enter and DEL for Backspace. -/
def ttyTerminal : Terminal := ⟨0x0D, 0x7F, by decide, by decide⟩

/-- Two arrows, an Enter, a letter and an Escape. -/
theorem keys_decoded_iff_arrows :
    Decoded ttyTerminal [.down, .up, .enter, .char 0x61, .esc] ↔
      .esc ∉ [UiKey.down, .up, .enter, .char 0x61] :=
  keys_decoded_iff (by simp [IsLogical]) (by decide)

/-- The letter after an Escape is lost. -/
theorem keys_lost :
    (∀ k ∈ [UiKey.esc, .char 0x61], IsLogical k) ∧ ¬ [.esc, .char 0x5B] <:+: [UiKey.esc, .char 0x61] ∧
      (decodeBytes .neutral ([UiKey.esc, .char 0x61].flatMap ttyTerminal.bytes)).2 = [.esc] ∧
      ¬ Decoded ttyTerminal [.esc, .char 0x61] := by
  refine ⟨by simp [IsLogical], by decide, by decide, ?_⟩
  rw [decoded_iff]
  decide

end RvvmHal.Menu
