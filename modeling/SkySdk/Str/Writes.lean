import SkySdk.Str.Hex

/-!
# The writes of the hexadecimal loops

`toHexWrites` and `fromHexWrites` are the loops of `sky_str_to_hex` and `sky_str_from_hex` with
their writes put on record instead of carried out, and with the fault that stops them, if one does.
Carrying the writes out one after the other gives what the loops give (`toHexFrom_eq_writes`,
`fromHexLoop_eq_writes`).
-/

set_option autoImplicit false

namespace Sky.Str

open Base

/-- Writes, and the fault that stops the loop after them. -/
abbrev Writes := List (Nat × UInt8) × Option Fault

/-- The writes on `buf` one after the other, then the fault. -/
def Writes.carryOut (w : Writes) (buf : List UInt8) : Except Fault (List UInt8) := do
  let out ← w.1.foldlM (fun out w => writeAt out w.1 w.2) buf
  match w.2 with
  | none => .ok out
  | some e => .error e

/-- A write before the others. -/
def Writes.cons (w : Nat × UInt8) (ws : Writes) : Writes := (w :: ws.1, ws.2)

/-- The rounds of the loop of `sky_str_to_hex` that are left, at `i`. -/
def toHexWrites (str : List UInt8) (i : UInt32) : Nat → Writes
  | 0 => ([], none)
  | n + 1 =>
    match readAt str i.toNat >>= sprintfBuf with
    | .error e => ([], some e)
    | .ok buf =>
      match readAt buf 0, readAt buf 1 with
      | .ok c0, .ok c1 =>
        .cons ((i * 2).toNat, c0) (.cons ((i * 2).toNat + 1, c1) (toHexWrites str (i + 1) n))
      | .ok c0, .error e => ([((i * 2).toNat, c0)], some e)
      | .error e, _ => ([], some e)

/-- The rounds of the loop of `sky_str_from_hex`, of which at most the given number are run. -/
def fromHexWrites (hex : List UInt8) (hexLen : UInt32) : Nat → Nat → UInt32 → Writes
  | 0, _, _ => ([], some .endless)
  | n + 1, i, value =>
    if i < hexLen.toNat then
      match scan02x (hex.drop i) with
      | .error e => ([], some e)
      | .ok scanned =>
        let value := scanned.getD value
        .cons (i / 2, (value &&& 0xff).toUInt8) <|
          match addInt i 2 with
          | .error e => ([], some e)
          | .ok i => fromHexWrites hex hexLen n i value
    else ([], none)

variable {w : Nat × UInt8} {ws : Writes} {buf str hex : List UInt8} {hexLen : UInt32}

theorem Writes.carryOut_cons :
    (Writes.cons w ws).carryOut buf = (writeAt buf w.1 w.2 >>= fun out => ws.carryOut out) := by
  unfold Writes.carryOut Writes.cons
  rw [List.foldlM_cons, bind_assoc]

theorem toHexFrom_eq_writes : ∀ (n : Nat) (i : UInt32) (hex : List UInt8),
    toHexFrom str i n hex = (toHexWrites str i n).carryOut hex
  | 0, _, _ => rfl
  | n + 1, i, hex => by
    rw [toHexFrom, toHexWrites, ← bind_assoc]
    cases readAt str i.toNat >>= sprintfBuf with
    | error e => rfl
    | ok buf =>
      dsimp only
      rw [ok_bind]
      cases readAt buf 0 with
      | error e => rfl
      | ok c0 =>
        cases readAt buf 1 with
        | error e =>
          dsimp only [Writes.carryOut]
          rw [ok_bind, List.foldlM_cons]
          cases writeAt hex (i * 2).toNat c0 <;> rfl
        | ok c1 =>
          dsimp only
          simp only [ok_bind, Writes.carryOut_cons, toHexFrom_eq_writes n]

theorem fromHexLoop_eq_writes : ∀ (n i : Nat) (value : UInt32) (str : List UInt8),
    fromHexLoop hex hexLen n i value str = (fromHexWrites hex hexLen n i value).carryOut str
  | 0, _, _, _ => rfl
  | n + 1, i, value, str => by
    rw [fromHexLoop, fromHexWrites]
    by_cases hlt : i < hexLen.toNat
    · rw [if_pos hlt, if_pos hlt]
      cases scan02x (hex.drop i) with
      | error e => rfl
      | ok scanned =>
        rw [ok_bind]
        dsimp only
        rw [Writes.carryOut_cons]
        congr 1
        funext out
        cases addInt i 2 with
        | error e => rfl
        | ok i' => exact fromHexLoop_eq_writes n i' (scanned.getD value) out
    · rw [if_neg hlt, if_neg hlt]
      rfl

end Sky.Str
