import RegisterMap.Parse

/-!
# Documents and their trees

A document in UTF-8 is read from its characters. What is parsed depends on the tree of elements that
is read and on nothing else, so a document is known once its tree is.
-/

namespace RegisterMap

namespace Element

/-- An element that holds nothing but a text, in a document of one line. -/
def leaf (tag text : String) : Element :=
  ⟨tag, 1, [], some text, []⟩

/-- An element that holds nothing but other elements, in a document of one line. -/
def node (tag : String) (children : List Element) : Element :=
  ⟨tag, 1, [], none, children⟩

end Element

/-- Lines that neither start with a mark nor declare another encoding are read from their
characters. -/
theorem Markup.readText_join {lines : List String} {css : List (List Char)} {root : Element}
    (hlines : lines = css.map String.ofList) (hmark : css.flatten.head? ≠ some '\uFEFF')
    (hencoding : declaredEncoding css.flatten = some .utf8)
    (hroot : readChars css.flatten = some root) : readText (String.join lines) = .ok root := by
  have hchars : (String.join lines).toList = css.flatten := by
    simp [hlines, String.toList_join, List.flatMap_map]
  unfold readText
  rw [hchars]
  split
  · next heq => exact absurd (by rw [heq, List.head?_cons]) hmark
  · simp only [hencoding, if_true, Option.bind_some, hroot]

theorem Config.regions_of_plain {config : Config} (plain : config.enableBitBand = false) :
    config.regions = .ok [] := by
  rw [Config.regions, plain, if_neg Bool.false_ne_true]

/-- Without bit-banding, a document is parsed by resolving the draft of its tree. -/
theorem result_parse {source : Source} {config : Config} {root : Element}
    (hroot : source.read = .ok root) (plain : config.enableBitBand = false) :
    (parse source config).result = (Draft.buildDevice root >>= resolve config).result := by
  unfold parse
  rw [Config.regions_of_plain plain, hroot, plain]
  simp only [Logged.result_bind, Logged.ofExcept, if_neg Bool.false_ne_true, Logged.result_pure]
  change ((Draft.buildDevice root).result >>= fun draft =>
    (resolve config draft).result >>= .ok) = _
  congr 1
  funext draft
  exact bind_pure _

end RegisterMap
