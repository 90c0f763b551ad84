import SubroutineVM.Assembly.Statement
import SubroutineVM.Proofs.Code.Instructions

/-!
The grammar of assembly lines as a relation beside the reader. `Statement.Denotes` lists what tokens
can say, and the reader accepts exactly the lines whose tokens are on the list
(`ofLine_eq_ok_iff`).
-/
namespace SubroutineVM.Assembly

def lineTokens? (line : List Char) : Option (List Token) := (lineWords line).mapM Token.ofWord?

section Tokens

variable {line : List Char} {first second : Token}

theorem lineTokens?_eq_nil_iff : lineTokens? line = some [] ↔ lineWords line = [] := by
  rw [lineTokens?]
  cases lineWords line with
  | nil => simp
  | cons word words => simp [List.mapM_cons, Option.bind_eq_some_iff]

theorem lineTokens?_eq_single_iff : lineTokens? line = some [first] ↔
    ∃ word, lineWords line = [word] ∧ Token.ofWord? word = some first := by
  rw [lineTokens?]
  match lineWords line with
  | [] => simp
  | [word] => simp [List.mapM_cons, Option.bind_eq_some_iff]
  | word :: other :: words => simp [List.mapM_cons, Option.bind_eq_some_iff]

theorem lineTokens?_eq_pair_iff : lineTokens? line = some [first, second] ↔
    ∃ word argument, lineWords line = [word, argument] ∧ Token.ofWord? word = some first ∧
      Token.ofWord? argument = some second := by
  rw [lineTokens?]
  match lineWords line with
  | [] => simp
  | [word] => simp [List.mapM_cons, Option.bind_eq_some_iff]
  | [word, argument] => simp [List.mapM_cons, Option.bind_eq_some_iff, and_assoc]
  | word :: argument :: other :: words => simp [List.mapM_cons, Option.bind_eq_some_iff]

end Tokens

namespace Statement

inductive Denotes : List Token → Option Statement → Prop where
  | nothing : Denotes [] none
  | plain {op : Opcode} (bare : op.immediateLength = 0) :
      Denotes [.name op.mnemonic] (some (.plain op))
  | push {n : Fin 32} {value : Nat} (fits : value < 1 <<< (8 * (n.val + 1))) :
      Denotes [.name (Opcode.push n).mnemonic, .number value] (some (.push n value))
  | undefined {byte : UInt8} (unknown : Opcode.ofByte? byte = none) :
      Denotes [.name Opcode.undefinedName, .number byte.toNat] (some (.undefined byte))

theorem bind_eq_ok_iff {ε α β : Type} {first : Except ε α} {next : α → Except ε β} {b : β} :
    first >>= next = .ok b ↔ ∃ a, first = .ok a ∧ next a = .ok b := by
  cases first with
  | error e => simp [bind, Except.bind]
  | ok a => simp [bind, Except.bind]

theorem noArgument_eq_ok_iff {tokens : List Token} {u : Unit} :
    noArgument tokens = .ok u ↔ tokens = [] := by
  cases tokens <;> simp [noArgument]

theorem numberArgument_eq_ok_iff {opcode? : Option Opcode} {tokens : List Token} {value : Nat} :
    numberArgument opcode? tokens = .ok value ↔ tokens = [.number value] := by
  cases tokens with
  | nil => simp [numberArgument]
  | cons token rest =>
    cases token with
    | name text => simp [numberArgument]
    | number first => cases rest <;> simp [numberArgument, noArgument, Except.map]

theorem ofByteValue_eq_ok_iff {value : Nat} {s : Statement} : ofByteValue value = .ok s ↔
    ∃ byte : UInt8, value = byte.toNat ∧ Opcode.ofByte? byte = none ∧ s = .undefined byte := by
  unfold ofByteValue
  split
  · rename_i large
    simp only [reduceCtorEq, false_iff]
    rintro ⟨byte, rfl, -⟩
    have bound := byte.toNat_lt
    omega
  · rename_i small
    have value_eq : (UInt8.ofNat value).toNat = value := by
      rw [UInt8.toNat_ofNat']
      omega
    split
    · rename_i known
      simp only [reduceCtorEq, false_iff]
      rintro ⟨byte, rfl, unknown, -⟩
      rw [UInt8.ofNat_toNat, unknown] at known
      cases known
    · rename_i unknown
      constructor
      · intro same
        cases same
        exact ⟨_, value_eq.symm, Option.not_isSome_iff_eq_none.mp unknown, rfl⟩
      · rintro ⟨byte, rfl, -, rfl⟩
        rw [UInt8.ofNat_toNat]

theorem denotes_of_ofTokens {tokens : List Token} {said? : Option Statement}
    (read : ofTokens tokens = .ok said?) : Denotes tokens said? := by
  cases tokens with
  | nil =>
    cases read
    exact .nothing
  | cons first arguments =>
    cases first with
    | number value => cases read
    | name text =>
      rw [ofTokens] at read
      split at read
      · rename_i undefined
        obtain ⟨value, argument, read⟩ := bind_eq_ok_iff.mp read
        obtain ⟨s, byte, same⟩ := bind_eq_ok_iff.mp read
        obtain ⟨byte, rfl, unknown, rfl⟩ := ofByteValue_eq_ok_iff.mp byte
        cases same
        rw [undefined, numberArgument_eq_ok_iff.mp argument]
        exact .undefined unknown
      · split at read
        · cases read
        · rename_i n found
          obtain ⟨value, argument, read⟩ := bind_eq_ok_iff.mp read
          rw [Opcode.ofMnemonic?_eq_some_iff.mp found, numberArgument_eq_ok_iff.mp argument]
          split at read
          · rename_i fits
            cases read
            exact .push fits
          · cases read
        · rename_i op other found
          obtain ⟨u, argument, same⟩ := bind_eq_ok_iff.mp read
          cases same
          rw [Opcode.ofMnemonic?_eq_some_iff.mp found, noArgument_eq_ok_iff.mp argument]
          exact .plain (Opcode.bare_of_ne_push other)

theorem ofTokens_of_denotes {tokens : List Token} {said? : Option Statement}
    (denotes : Denotes tokens said?) : ofTokens tokens = .ok said? := by
  cases denotes with
  | nothing => rfl
  | @plain op bare =>
    rw [ofTokens, if_neg op.mnemonic_ne_undefinedName, Opcode.ofMnemonic?_mnemonic]
    cases op with
    | push n => cases bare
    | _ => rfl
  | @push n value fits =>
    rw [ofTokens, if_neg (Opcode.mnemonic_ne_undefinedName _), Opcode.ofMnemonic?_mnemonic]
    exact if_pos fits
  | @undefined byte unknown =>
    rw [ofTokens, if_pos rfl]
    refine bind_eq_ok_iff.mpr ⟨byte.toNat, rfl, bind_eq_ok_iff.mpr ⟨.undefined byte, ?_, rfl⟩⟩
    exact ofByteValue_eq_ok_iff.mpr ⟨byte, rfl, unknown, rfl⟩

theorem ofTokens_eq_ok_iff {tokens : List Token} {said? : Option Statement} :
    ofTokens tokens = .ok said? ↔ Denotes tokens said? :=
  ⟨denotes_of_ofTokens, ofTokens_of_denotes⟩

/-- The reader takes every word for a token before it looks at their order. -/
theorem words_eq_ok_iff {words : List (List Char)} {tokens : List Token} :
    (words.mapM fun word => match Token.ofWord? word with
      | some token => Except.ok token
      | none => .error (Problem.invalidNumber (String.ofList word))) = .ok tokens ↔
      words.mapM Token.ofWord? = some tokens := by
  induction words generalizing tokens with
  | nil => simp [pure, Except.pure]
  | cons word words ih =>
    rw [List.mapM_cons, List.mapM_cons]
    cases read : Token.ofWord? word with
    | none => simp [bind, Except.bind]
    | some token =>
      rw [bind_eq_ok_iff, Option.bind_eq_bind, Option.bind_some, Option.bind_eq_bind,
        Option.bind_eq_some_iff]
      simp only [Except.ok.injEq, exists_eq_left']
      rw [bind_eq_ok_iff]
      simp only [ih, pure, Except.pure, Except.ok.injEq, Option.some.injEq]

theorem ofLine_eq_ok_iff {line : List Char} {said? : Option Statement} :
    ofLine line = .ok said? ↔ ∃ tokens, lineTokens? line = some tokens ∧ Denotes tokens said? := by
  rw [ofLine, bind_eq_ok_iff]
  simp only [ofTokens_eq_ok_iff]
  constructor
  · rintro ⟨tokens, read, denotes⟩
    exact ⟨tokens, words_eq_ok_iff.mp read, denotes⟩
  · rintro ⟨tokens, read, denotes⟩
    exact ⟨tokens, words_eq_ok_iff.mpr read, denotes⟩

end Statement

end SubroutineVM.Assembly
