import SimpleChubby.Path

/-!
# The loop of `dirContentDelete`

`dirContentDelete` as `server/serverdb.cc:54-71` has it: a `std::stringstream` over
the content, read with `std::getline` up to each bar. `dirContentDelete` of the
model is what the loop computes, for any content that a client may have written.
-/

namespace SimpleChubby

open Separated

/-- The body of the loop: an empty token and the node's own are passed over. -/
def appendToken (node str token : Str) : Str :=
  if token = [] then str
  else if node ≠ token then str ++ '|' :: token
  else str

/-- `dirContentDelete`, as the stream is read. -/
def dirContentDeleteLoop (content node : Str) : Str :=
  readAll '|' (appendToken node) [] (.ofList content)

theorem foldl_appendToken (node : Str) {tokens : List Str} (h : ∀ token ∈ tokens, token ≠ [])
    (str : Str) :
    tokens.foldl (appendToken node) str = str ++ dirContent (tokens.filter (· ≠ node)) := by
  induction tokens generalizing str with
  | nil => exact (List.append_nil str).symm
  | cons token rest ih =>
    have hrest : ∀ t ∈ rest, t ≠ [] := fun t ht => h t (List.mem_cons_of_mem _ ht)
    rw [List.foldl_cons, ih hrest, appendToken, if_neg (h token List.mem_cons_self)]
    by_cases hnode : node = token
    · rw [if_neg (not_not.mpr hnode), List.filter_cons_of_neg (by simp [hnode])]
    · rw [if_pos hnode, List.filter_cons_of_pos (by simp [Ne.symm hnode]), List.append_assoc]
      rfl

/-- The loop keeps the other tokens that are not empty, each behind a bar. -/
theorem dirContentDeleteLoop_eq (content node : Str) :
    dirContentDeleteLoop content node = dirContentDelete content node := by
  unfold dirContentDeleteLoop
  rw [readAll_ofList fun _ => rfl, foldl_appendToken node fun token h => (mem_pieces h).2,
    List.nil_append, dirContentDelete_keep]
  rfl

/-- What `dirContentDelete` does to any content. -/
structure DeletesExactly (content node : Str) : Prop where
  tokens : dirContentDeleteLoop content node =
    (((content.splitOn '|').filter (· ≠ [])).filter (· ≠ node)).flatMap ('|' :: ·)
  idempotent : dirContentDeleteLoop (dirContentDeleteLoop content node) node =
    dirContentDeleteLoop content node
  comm : ∀ other, dirContentDeleteLoop (dirContentDeleteLoop content node) other =
    dirContentDeleteLoop (dirContentDeleteLoop content other) node
  create : dirContentDeleteLoop (dirContentCreate content node) node =
    dirContentDeleteLoop content node

theorem deletesExactly (content node : Str) (hnode : node ≠ []) (hbar : '|' ∉ node) :
    DeletesExactly content node := by
  constructor
  · rw [dirContentDeleteLoop_eq, dirContentDelete_keep]
    rfl
  · simp only [dirContentDeleteLoop_eq, dirContentDelete_keep, keep_keep, Bool.and_self]
  · intro other
    simp only [dirContentDeleteLoop_eq, dirContentDelete_keep, keep_keep]
    exact congrArg (keep '|' · content) (funext fun token => Bool.and_comm _ _)
  · simp only [dirContentDeleteLoop_eq, dirContentDelete_keep]
    have hpieces : pieces '|' (dirContentCreate content node) = pieces '|' content ++ [node] := by
      unfold dirContentCreate
      rw [pieces_append, pieces_of_not_mem hbar, List.filter_cons_of_pos (by simpa using hnode)]
      rfl
    unfold keep
    rw [hpieces, List.filter_append, List.filter_cons_of_neg (by simp), List.filter_nil,
      List.append_nil]

/-- A content with empty entries and a repeated one. -/
theorem deletesExactly_twice : DeletesExactly "/a||/b|/a|".toList "/a".toList :=
  deletesExactly _ _ (by decide) (by decide)

end SimpleChubby
