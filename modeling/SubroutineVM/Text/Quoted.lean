import SubroutineVM.Digits

/-!
A byte shown as one quoted character: the Latin-1 character of that number between single
quotes, with escapes for the quote itself, the backslash and what does not print.
-/
namespace SubroutineVM.Quoted

/-- Controls, the no-break space and the soft hyphen do not print. -/
def prints (code : Nat) : Bool :=
  0x20 ≤ code && code ≤ 0x7e || 0xa1 ≤ code && code ≠ 0xad

def escape (code : Nat) : String :=
  match code with
  | 0 => "\\0"
  | 9 => "\\t"
  | 10 => "\\n"
  | 13 => "\\r"
  | 39 => "\\'"
  | 92 => "\\\\"
  | _ =>
    if prints code then String.singleton (Char.ofNat code)
    else "\\u\x7b" ++ String.ofList (Nat.toDigits 16 code) ++ "\x7d"

def byte (b : UInt8) : String := "'" ++ escape b.toNat ++ "'"

end SubroutineVM.Quoted
