import Blogd.Http.Routes
import Blogd.Server.Sample

/-! # Routing in plain terms

The route table says which callback a path gets through four patterns that are tried in order. For
a path of one line it can be said without patterns: the index is the single slash, a file is told
by the first dot with an extension behind it, a page by the first number behind its word, and
everything else is the name of a post.
-/

namespace Blogd

/-- What stands in front of the first dot with an extension behind it, and the extension. -/
def firstExtension (path : Bytes) : Option (List Bytes) :=
  (List.range path.length).findSome? fun k =>
    (extensionAt path k).map fun e => [path.take k, e]

/-- The last digit of the first page number. -/
def firstPageDigit (path : Bytes) : Option UInt8 :=
  (List.range path.length).findSome? (pageDigitAt path)

/-- The callback for a path, and what it is given. -/
def plainRoute (path : Bytes) : Callback × List Bytes :=
  if path = ascii "/" then (.index, [])
  else
    match firstExtension path with
    | some found => (.file, found)
    | none =>
        match firstPageDigit path with
        | some last => (.page, [[last]])
        | none => (.content, [path.drop 1])

section First

variable {path : Bytes}

theorem firstExtension_eq_none (hnone : firstExtension path = none) (k : Nat) :
    extensionAt path k = none := by
  rw [firstExtension, List.findSome?_eq_none_iff] at hnone
  cases hat : extensionAt path k with
  | none => rfl
  | some e =>
      have hk := hnone k (List.mem_range.mpr (lt_length_of_extensionAt hat))
      rw [hat] at hk
      cases hk

theorem lt_length_of_pageDigitAt {k : Nat} {last : UInt8} (hat : pageDigitAt path k = some last) :
    k < path.length := by
  unfold pageDigitAt at hat
  split at hat
  next hpre =>
    have hlength := hpre.length_le
    rw [page_length, List.length_drop] at hlength
    omega
  next => cases hat

theorem firstPageDigit_eq_none (hnone : firstPageDigit path = none) (k : Nat) :
    pageDigitAt path k = none := by
  rw [firstPageDigit, List.findSome?_eq_none_iff] at hnone
  cases hat : pageDigitAt path k with
  | none => rfl
  | some last =>
      have hk := hnone k (List.mem_range.mpr (lt_length_of_pageDigitAt hat))
      rw [hat] at hk
      cases hk

theorem firstExtension_eq_some {found : List Bytes} (hfound : firstExtension path = some found) :
    ∃ k e, extensionAt path k = some e ∧ (∀ j < k, extensionAt path j = none) ∧
      found = [path.take k, e] := by
  obtain ⟨k, hk, hfirst⟩ := Regex.exists_first_of_findSome?_range hfound
  obtain ⟨e, he, rfl⟩ := Option.map_eq_some_iff.mp hk
  exact ⟨k, e, he, fun j hj => Option.map_eq_none_iff.mp (hfirst j hj), rfl⟩

end First

/-- The route table finds the callback that the plain reading gives. -/
theorem findRoute_plain {ext : External} (hspec : ext.PcreSpec) {path : Bytes}
    (hslash : ascii "/" <+: path) (hline : LF ∉ path) :
    findRoute ext path httpRoutes = .ok (some (plainRoute path)) := by
  by_cases hindex : path = ascii "/"
  · rw [hindex, findRoute_index hspec]
    rfl
  · rw [plainRoute, if_neg hindex]
    cases hfile : firstExtension path with
    | some found =>
        obtain ⟨k, e, he, hfirst, rfl⟩ := firstExtension_eq_some hfile
        exact findRoute_file hspec hline hindex he hfirst
    | none =>
        have hext := firstExtension_eq_none hfile
        cases hpage : firstPageDigit path with
        | some last =>
            obtain ⟨k, hk, hfirst⟩ := Regex.exists_first_of_findSome?_range hpage
            exact findRoute_page hspec hline hindex hext hk hfirst
        | none =>
            obtain ⟨rest, rfl⟩ := hslash
            have hrest : rest ≠ [] := fun hnil => hindex (by rw [hnil, List.append_nil])
            exact findRoute_content hspec (fun hmem => hline (List.mem_append_right _ hmem)) hrest
              hext (firstPageDigit_eq_none hpage)

/-- A path of one line runs the callback of its plain reading and no other, and a post is looked
up under the whole path behind its slash. -/
theorem routeRequest_plain (env : Env) (hspec : env.toExternal.PcreSpec) (junk : Nat → UInt8)
    (readlen qblen : Nat) (path : Bytes) (hslash : ascii "/" <+: path) (hline : LF ∉ path) :
    routeRequest env junk readlen qblen path =
        (do
          modify fun w => w.record (.route path (plainRoute path).1 (plainRoute path).2)
          (plainRoute path).1.run env junk readlen qblen (plainRoute path).2) ∧
      ((plainRoute path).1 = .content →
        (plainRoute path).1.run env junk readlen qblen (plainRoute path).2 =
          responseHttpKey env junk readlen qblen (postKeyPrefix ++ path.drop 1)) := by
  constructor
  · funext w
    rw [routeRequest, findRoute_plain hspec hslash hline, bind_apply, lift_ok]
  · unfold plainRoute
    split
    next => exact Callback.noConfusion
    next =>
      split
      next => exact Callback.noConfusion
      next =>
        split
        next => exact Callback.noConfusion
        next => exact fun _ => rfl

/-- The second number of the path is not looked at, and neither is the first digit. -/
theorem routeRequest_plain_page :
    routeRequest sampleEnv (fun _ => 0) protoIobufLen 0 (ascii "/blog/page/42x/page/7") =
      (do
        modify fun w => w.record (.route (ascii "/blog/page/42x/page/7") .page [ascii "2"])
        responseHttpPage sampleEnv (fun _ => 0) protoIobufLen 0 [ascii "2"]) := by
  have hplain : plainRoute (ascii "/blog/page/42x/page/7") = (.page, [ascii "2"]) := by decide
  have hroute := (routeRequest_plain sampleEnv sampleExternal_pcreSpec (fun _ => 0) protoIobufLen 0
    (ascii "/blog/page/42x/page/7") (by decide) (by decide)).1
  rw [hplain] at hroute
  exact hroute

end Blogd
