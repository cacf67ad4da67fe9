import JobOperator.Json.Printer
import JobOperator.Json.Reader
import JobOperator.Proofs.Json.Words

/-!
Reading back what was printed. A document without gaps whose numbers are integers of 64 bits is
printed as a text that denotes it: the words of the text are those of the document, and the reader
puts them together again.
-/

namespace JobOperator.Json

open Token

/-- A document that is written without loss: it has no gap, and its numbers are integers of 64 bits. -/
inductive Plain : Json → Prop where
  | null : Plain .null
  | bool (b : Bool) : Plain (.bool b)
  | int {n : Int} : FitsWord n → Plain (.int n)
  | str (s : String) : Plain (.str s)
  | arr {items : List Json} : (∀ item ∈ items, Plain item) → Plain (.arr items)
  | obj {members : List (String × Json)} : (∀ m ∈ members, Plain m.2) → Plain (.obj members)

/-! ### The printed text -/

/-- What stands between the parts of a container is added at the end. -/
theorem separated_append (out text : String) (first : Bool) :
    (if first then out ++ text else out ++ text ++ ",") =
      out ++ (if first then text else text ++ ",") := by
  cases first with
  | true => rfl
  | false => exact String.append_assoc

mutual

/-- What is printed is added at the end. -/
theorem printTo_append (out text : String) :
    (document : Json) → printTo (out ++ text) document = out ++ printTo text document
  | .null | .bool true | .bool false | .num (.int _) | .num (.decimal _) | .str _ | .broken _ => by
    simp only [printTo, String.append_assoc]
  | .arr items => by
    simp only [printTo]
    rw [String.append_assoc, printItems_append out _ true items, String.append_assoc]
  | .obj members => by
    simp only [printTo]
    rw [String.append_assoc, printMembers_append out _ true members, String.append_assoc]

theorem printItems_append (out text : String) (first : Bool) :
    (items : List Json) → printItems (out ++ text) first items = out ++ printItems text first items
  | [] => rfl
  | item :: rest => by
    simp only [printItems]
    rw [separated_append, printTo_append out _ item, printItems_append out _ false rest]

theorem printMembers_append (out text : String) (first : Bool) :
    (members : List (String × Json)) →
      printMembers (out ++ text) first members = out ++ printMembers text first members
  | [] => rfl
  | (key, value) :: rest => by
    simp only [printMembers]
    rw [separated_append, String.append_assoc, String.append_assoc, printTo_append out _ value,
      printMembers_append out _ false rest, ← String.append_assoc]

end

theorem printTo_eq (out : String) (document : Json) :
    printTo out document = out ++ print document := by
  rw [print, ← printTo_append, String.append_empty]

theorem printItems_eq (out : String) (first : Bool) (items : List Json) :
    printItems out first items = out ++ printItems "" first items := by
  rw [← printItems_append, String.append_empty]

theorem printMembers_eq (out : String) (first : Bool) (members : List (String × Json)) :
    printMembers out first members = out ++ printMembers "" first members := by
  rw [← printMembers_append, String.append_empty]

/-- The comma before all parts of a container but the first. -/
def separator (first : Bool) : String := if first then "" else ","

theorem printItems_cons (first : Bool) (item : Json) (rest : List Json) :
    printItems "" first (item :: rest) =
      separator first ++ (print item ++ printItems "" false rest) := by
  rw [printItems, printTo_eq, printItems_eq, String.append_assoc]
  cases first <;> rfl

theorem printMembers_cons (first : Bool) (key : String) (value : Json)
    (rest : List (String × Json)) :
    printMembers "" first ((key, value) :: rest) =
      separator first ++ (quote key ++ (":" ++ (print value ++ printMembers "" false rest))) := by
  rw [printMembers, printTo_eq, printMembers_eq]
  simp only [String.append_assoc]
  cases first <;> rfl

theorem print_arr (items : List Json) :
    print (.arr items) = "[" ++ (printItems "" true items ++ "]") := by
  rw [print, printTo, printItems_eq]
  rfl

theorem print_obj (members : List (String × Json)) :
    print (.obj members) = "\x7b" ++ (printMembers "" true members ++ "\x7d") := by
  rw [print, printTo, printMembers_eq]
  rfl

/-! ### Its words -/

mutual

/-- The words of a document. -/
def words : Json → List Token
  | .null | .broken _ => [.null]
  | .bool b => [.bool b]
  | .num n => [.num n]
  | .str s => [.str s]
  | .arr items => .openArray :: itemWords true items
  | .obj members => .openObject :: memberWords true members

/-- The words of items and of the end of their array, with a comma before all but the `first`. -/
def itemWords (first : Bool) : List Json → List Token
  | [] => [.closeArray]
  | item :: rest => (if first then [] else [.comma]) ++ (words item ++ itemWords false rest)

/-- The words of members and of the end of their object, with a comma before all but the `first`. -/
def memberWords (first : Bool) : List (String × Json) → List Token
  | [] => [.closeObject]
  | (key, value) :: rest =>
    (if first then [] else [.comma]) ++ .str key :: .colon :: (words value ++ memberWords false rest)

end

/-- A comma before a part of a container is a word. -/
theorem scans_separator {first : Bool} {text rest : List Char} {ws : List Token}
    (h : Scans text ws rest) :
    Scans ((separator first).toList ++ text) ((if first then [] else [.comma]) ++ ws) rest := by
  cases first with
  | true => exact h
  | false => exact Scans.mark rfl (fun _ => rfl) h

theorem endsValue_items (items : List Json) (rest : List Char) :
    EndsValue ((printItems "" false items).toList ++ ']' :: rest) := by
  cases items with
  | nil => exact endsValue_cons (.inr (.inl rfl))
  | cons item items =>
    rw [printItems_cons, String.toList_append]
    exact endsValue_cons (.inl rfl)

theorem endsValue_members (members : List (String × Json)) (rest : List Char) :
    EndsValue ((printMembers "" false members).toList ++ '\x7d' :: rest) := by
  cases members with
  | nil => exact endsValue_cons (.inr (.inr rfl))
  | cons m members =>
    rw [printMembers_cons, String.toList_append]
    exact endsValue_cons (.inl rfl)

mutual

/-- The words of a printed document are read off its text. -/
theorem scans_print {rest : List Char} (hrest : EndsValue rest) :
    (document : Json) → document.Plain → Scans ((print document).toList ++ rest) document.words rest
  | .null, _ | .bool true, _ | .bool false, _ => Scans.one rfl rfl (by simp; omega)
  | .num _, .int hfits => scans_int hfits hrest
  | .str s, _ => scans_quote s rest
  | .arr items, .arr hitems => by
    rw [print_arr, String.toList_append, String.toList_append, List.append_assoc, List.append_assoc]
    exact Scans.mark rfl (fun _ => rfl) (scans_items true rest items hitems)
  | .obj members, .obj hmembers => by
    rw [print_obj, String.toList_append, String.toList_append, List.append_assoc, List.append_assoc]
    exact Scans.mark rfl (fun _ => rfl) (scans_members true rest members hmembers)

theorem scans_items (first : Bool) (rest : List Char) :
    (items : List Json) → (∀ item ∈ items, item.Plain) →
      Scans ((printItems "" first items).toList ++ ']' :: rest) (itemWords first items) rest
  | [], _ => Scans.one rfl rfl (Nat.le_refl _)
  | item :: items, h => by
    rw [printItems_cons, String.toList_append, String.toList_append, List.append_assoc,
      List.append_assoc]
    refine scans_separator ?_
    exact (scans_print (endsValue_items items rest) item (h item List.mem_cons_self)).append
      (scans_items false rest items fun i hi => h i (List.mem_cons_of_mem _ hi))

theorem scans_members (first : Bool) (rest : List Char) :
    (members : List (String × Json)) → (∀ m ∈ members, m.2.Plain) →
      Scans ((printMembers "" first members).toList ++ '\x7d' :: rest)
        (memberWords first members) rest
  | [], _ => Scans.one rfl rfl (Nat.le_refl _)
  | (key, value) :: members, h => by
    rw [printMembers_cons]
    simp only [String.toList_append, List.append_assoc]
    refine scans_separator ((scans_quote key _).append ?_)
    refine Scans.mark rfl (fun _ => rfl) ?_
    exact (scans_print (endsValue_members members rest) value (h _ List.mem_cons_self)).append
      (scans_members false rest members fun m hm => h m (List.mem_cons_of_mem _ hm))

end

/-! ### Putting the words together -/

theorem Reader.run_cons {reader next : Reader} {word : Token} {ws : List Token}
    (h : reader.advance word = .ok next) : reader.run (word :: ws) = next.run ws := by
  cases reader with
  | finished root => cases h
  | _ => simp only [Reader.run, h]

/-- The first item of an array is read like any other. -/
theorem run_firstItem (document : Json) (stack : List Frame) (ws : List Token) :
    (Reader.firstItem stack).run (document.words ++ ws) =
      (Reader.value (.array [] :: stack)).run (document.words ++ ws) := by
  cases document <;> exact (Reader.run_cons rfl).trans (Reader.run_cons rfl).symm

theorem run_firstKey (key : String) (stack : List Frame) (ws : List Token) :
    (Reader.firstKey stack).run (.str key :: .colon :: ws) =
      (Reader.value (.object [] (some key) :: stack)).run ws :=
  (Reader.run_cons rfl).trans (Reader.run_cons rfl)

theorem run_nextKey (key : String) (done : List (String × Json)) (stack : List Frame)
    (ws : List Token) :
    (Reader.nextKey done stack).run (.str key :: .colon :: ws) =
      (Reader.value (.object done (some key) :: stack)).run ws :=
  (Reader.run_cons rfl).trans (Reader.run_cons rfl)

mutual

/-- The words of a document are read as that document. -/
theorem run_words (stack : List Frame) (ws : List Token) :
    (document : Json) → document.Plain →
      (Reader.value stack).run (document.words ++ ws) = (Reader.give document stack).run ws
  | .null, _ | .bool _, _ | .num _, _ | .str _, _ => Reader.run_cons rfl
  | .arr [], _ => (Reader.run_cons rfl).trans (Reader.run_cons rfl)
  | .arr (item :: items), .arr h => by
    rw [words, itemWords, if_pos rfl, List.nil_append, List.cons_append, List.append_assoc]
    refine (Reader.run_cons rfl).trans ?_
    rw [run_firstItem, run_words _ _ item (h item List.mem_cons_self)]
    exact run_items [item] stack ws items fun i hi => h i (List.mem_cons_of_mem _ hi)
  | .obj [], _ => (Reader.run_cons rfl).trans (Reader.run_cons rfl)
  | .obj ((key, value) :: members), .obj h => by
    simp only [words, memberWords, if_true, List.nil_append, List.cons_append, List.append_assoc]
    refine (Reader.run_cons rfl).trans ?_
    rw [run_firstKey, run_words _ _ value (h _ List.mem_cons_self)]
    exact run_members [(key, value)] stack ws members fun m hm => h m (List.mem_cons_of_mem _ hm)

/-- The words of further items complete their array. -/
theorem run_items (done : List Json) (stack : List Frame) (ws : List Token) :
    (items : List Json) → (∀ item ∈ items, item.Plain) →
      (Reader.afterItem done stack).run (itemWords false items ++ ws) =
        (Reader.give (.arr (done.reverse ++ items)) stack).run ws
  | [], _ => by
    rw [List.append_nil]
    exact Reader.run_cons rfl
  | item :: items, h => by
    simp only [itemWords, Bool.false_eq_true, if_false, List.cons_append, List.nil_append,
      List.append_assoc]
    refine (Reader.run_cons rfl).trans ?_
    rw [run_words _ _ item (h item List.mem_cons_self)]
    refine (run_items (item :: done) stack ws items fun i hi =>
      h i (List.mem_cons_of_mem _ hi)).trans ?_
    rw [List.reverse_cons, List.append_assoc]
    rfl

/-- The words of further members complete their object. -/
theorem run_members (done : List (String × Json)) (stack : List Frame) (ws : List Token) :
    (members : List (String × Json)) → (∀ m ∈ members, m.2.Plain) →
      (Reader.afterMember done stack).run (memberWords false members ++ ws) =
        (Reader.give (.obj (done.reverse ++ members)) stack).run ws
  | [], _ => by
    rw [List.append_nil]
    exact Reader.run_cons rfl
  | (key, value) :: members, h => by
    simp only [memberWords, Bool.false_eq_true, if_false, List.cons_append, List.nil_append,
      List.append_assoc]
    refine (Reader.run_cons rfl).trans ?_
    rw [run_nextKey, run_words _ _ value (h _ List.mem_cons_self)]
    refine (run_members ((key, value) :: done) stack ws members fun m hm =>
      h m (List.mem_cons_of_mem _ hm)).trans ?_
    rw [List.reverse_cons, List.append_assoc]
    rfl

end

/-- A plain document is read back from the text that is printed for it. -/
theorem Text.read_print {document : Json} (h : document.Plain) :
    Text.read document.print = ⟨document, false⟩ := by
  have hend : EndsValue [] := nofun
  have hscan := scans_print hend document h
  rw [List.append_nil] at hscan
  have hrun := run_words [] [] document h
  rw [List.append_nil] at hrun
  rw [Text.read, hscan.scan_eq, hrun]
  rfl

end JobOperator.Json
