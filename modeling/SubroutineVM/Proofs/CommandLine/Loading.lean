import SubroutineVM.CommandLine.Response

/-!
What becomes of an input. A text that is written is read back (`readText_write?`), no other file is
touched (`read?_write?_other`), and a command on a code answers from the code alone once the input
is loaded (`answers_alike`).
-/
namespace SubroutineVM

def Response.shown (r : Response) : Nat × String × String := (r.exit, r.stdout, r.stderr)

/-- A file can be made at a path, or be given another content. -/
def FileStore.Writable (store : FileStore) (path : String) : Prop :=
  (Location.ofPath path).namesFile = true ∧
    (Location.ofPath path).directory ∈ store.directories

instance (store : FileStore) (path : String) : Decidable (store.Writable path) :=
  inferInstanceAs (Decidable (_ ∧ _))

namespace FileStore

variable {store after : FileStore} {path other text : String} {content : ByteArray}

theorem write?_of_writable (writable : store.Writable path) (content : ByteArray) :
    ∃ after, store.write? path content = some after := ⟨_, if_pos writable⟩

theorem lookup_filter_ne {files : List (Location × ByteArray)} {place location : Location}
    (apart : place ≠ location) :
    (files.filter (·.1 ≠ location)).lookup place = files.lookup place := by
  induction files with
  | nil => rfl
  | cons file files ih =>
    obtain ⟨here, content⟩ := file
    by_cases same : here = location
    · subst same
      rw [List.filter_cons_of_neg (by simp), ih, List.lookup_cons, beq_false_of_ne apart]
    · rw [List.filter_cons_of_pos (by simpa using same), List.lookup_cons, List.lookup_cons, ih]

theorem read?_write?_other (written : store.write? path content = some after)
    (apart : Location.ofPath other ≠ Location.ofPath path) :
    after.read? other = store.read? other := by
  simp only [write?] at written
  split at written
  · cases written
    rw [read?, List.lookup_cons, beq_false_of_ne apart]
    exact lookup_filter_ne apart
  · cases written

theorem fromUTF8?_toUTF8 (text : String) : String.fromUTF8? text.toUTF8 = some text := by
  rw [String.fromUTF8?, String.toUTF8_eq_toByteArray, dif_pos text.isValidUTF8]
  rfl

theorem readText_write? (written : store.write? path text.toUTF8 = some after) :
    after.readText path = .ok text := by
  rw [readText, read?_write? written rfl]
  simp only [fromUTF8?_toUTF8]

theorem exists_of_readText (read : store.readText path = .ok text) :
    ∃ content, store.read? path = some content := by
  rw [readText] at read
  split at read
  · cases read
  · rename_i content found
    exact ⟨content, found⟩

theorem loadCode_assembled {code : Code} (read : store.readText path = .ok text)
    (source : (Location.ofPath path).extension? = some "asm")
    (assembled : Assembly.assemble text = .ok code) : store.loadCode path = .ok code := by
  obtain ⟨content, found⟩ := exists_of_readText read
  simp only [loadCode, found, read, source, assembled, if_true]

theorem loadCode_hex {code : Code} (read : store.readText path = .ok text)
    (noSource : (Location.ofPath path).extension? ≠ some "asm")
    (decoded : Code.read text = .ok code) : store.loadCode path = .ok code := by
  obtain ⟨content, found⟩ := exists_of_readText read
  simp only [loadCode, found, read, if_neg noSource, decoded]

end FileStore

section Loaded

variable {store : FileStore} {input : String} {answer : Code → Response}

theorem withCode_loaded {code : Code} (loaded : store.loadCode input = .ok code) :
    store.withCode input answer = answer code := by
  rw [FileStore.withCode, loaded]

theorem withCode_refused {message : String} (refused : store.loadCode input = .error message) :
    store.withCode input answer = .failure store message := by
  rw [FileStore.withCode, refused]

end Loaded

section Alike

variable {store other : FileStore} {input output : String} {code : Code}

theorem run_shown (gas : Nat) (trace : Bool) :
    (Response.run store code gas trace).shown = (Response.run other code gas trace).shown := by
  simp only [Response.run]
  split <;> rfl

theorem analyze_shown (json : Bool) :
    (Response.analyze store code json).shown = (Response.analyze other code json).shown := by
  simp only [Response.analyze]
  split <;> rfl

theorem answers_alike (one : store.loadCode input = .ok code)
    (two : other.loadCode output = .ok code) :
    (∀ gas trace, ((Command.run output gas trace).respond other).shown =
      ((Command.run input gas trace).respond store).shown) ∧
    ((Command.disassemble output).respond other).shown =
      ((Command.disassemble input).respond store).shown ∧
    ∀ json, ((Command.analyze output json).respond other).shown =
      ((Command.analyze input json).respond store).shown := by
  simp only [Command.respond, withCode_loaded one, withCode_loaded two]
  exact ⟨run_shown, rfl, analyze_shown⟩

end Alike

end SubroutineVM
