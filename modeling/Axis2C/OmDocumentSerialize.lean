import Axis2C.OmBuilderDocument
import Axis2C.OmSerialize

/-!
# Building and serializing a document

The serializers write the tree of the document that the builder read.
-/
namespace Axis2C.Om

open OrderedTrees

section Written

/-- What a call of a serializer writes, by the label of its node. -/
inductive Markup where
  | start (label : Label)
  | leaf (label : Label)
  | finish (label : Label)
  deriving DecidableEq, Repr

def Label.opening : Label → List Markup
  | .element name attributes => [.start (.element name attributes)]
  | label => [.leaf label]

def Label.ending : Label → List Markup
  | .element name attributes => [.finish (.element name attributes)]
  | _ => []

/-- What is written for a document. An element without content has an end tag, too. -/
def treeMarkup (trees : Trees Event) : List Markup :=
  trees.walk (fun e => e.label.toList.flatMap Label.opening)
    fun e => e.label.toList.flatMap Label.ending

def markup (h : OmHeap) (part : Part) : List Markup :=
  match part with
  | .start n => (nodeLabel (h.data n)).toList.map .start
  | .leaf n => (nodeLabel (h.data n)).toList.map .leaf
  | .finish n => (nodeLabel (h.data n)).toList.map .finish

end Written

section Parts

variable {h : OmHeap} {n : ℕ}

lemma parts_labelled {label : Label} (hlabel : nodeLabel (h.data n) = some label) :
    (startPart h n).toList.flatMap (markup h) = label.opening ∧
      (endPart h n).toList.flatMap (markup h) = label.ending := by
  have hn := hlabel
  unfold nodeLabel at hlabel
  split at hlabel
  case h_5 => cases hlabel
  all_goals
    rename_i htype hdata
    obtain rfl := Option.some.inj hlabel
    simp [startPart, endPart, htype, hdata, markup, hn, Label.opening, Label.ending]

lemma Event.Readable.labelled {e : Event} (he : e.Readable) (hdata : e.lacksData = false) :
    ∃ label, e.label = some label := by
  cases e with
  | startElement tag | emptyElement tag => exact ⟨_, rfl⟩
  | space value | character value | comment value =>
    obtain ⟨v, rfl⟩ := Option.isSome_iff_exists.mp he
    exact ⟨_, rfl⟩
  | processingInstruction target data =>
    obtain ⟨t, rfl⟩ := Option.isSome_iff_exists.mp he
    cases data with
    | none => cases hdata
    | some data => exact ⟨_, rfl⟩
  | startDocument | endElement | entityReference | cdata | documentType => exact he.elim

/-- The trees that the links show are walked as the trees of the document. -/
lemma Shows.chain {trees : Trees Event} {n : Option ℕ} (hshows : Shows h n trees)
    (hcontent : Content trees) (hdata : ∀ e ∈ contentEvents trees, e.lacksData = false) :
    ∃ nodes, Chain h n nodes ∧ nodes.height = trees.height ∧
      (traversal h nodes).flatMap (markup h) = treeMarkup trees := by
  induction trees generalizing n with
  | nil => exact ⟨.nil, hshows, rfl, rfl⟩
  | node e content rest ihc ihr =>
    obtain ⟨a, rfl, hlabel, -, hfirst, hnext⟩ := hshows
    obtain ⟨hreadable, -, hinner, hrest⟩ := hcontent
    simp only [contentEvents_node, List.mem_cons, List.mem_append] at hdata
    obtain ⟨cs, hcs, hheight, hwritten⟩ := ihc hfirst hinner fun d hd => hdata d (by simp [hd])
    obtain ⟨ss, hss, hheight', hwritten'⟩ := ihr hnext hrest fun d hd => hdata d (by simp [hd])
    obtain ⟨label, hl⟩ := hreadable.labelled (hdata e (by simp))
    obtain ⟨hstart, hend⟩ := parts_labelled (hlabel.trans hl)
    refine ⟨.node a cs ss, ⟨rfl, hcs, hss⟩, by simp [Trees.height, hheight, hheight'], ?_⟩
    simp only [traversal_node, nodeCalls, List.flatMap_append, hstart, hend, hwritten, hwritten']
    simp [treeMarkup, Trees.walk, hl]

end Parts

/-- The tree that is built from the document is written as the document, within the arrays of
the serializers exactly if the document has at most 256 levels. -/
def Document.WrittenBack (doc : Document) (libxml2 subTree : Bool) (replies : ℕ → Bool) : Prop :=
  ∃ es b fuel w, documentBuildAll doc.events (builderCreate libxml2) = some (some 0, es, b) ∧
    serializeLoop subTree b.heap replies fuel (startWalk 0) = some w ∧ w.success = true ∧
    w.calls.flatMap (markup b.heap) = treeMarkup doc.tree ∧
    (w.overflow = false ↔ doc.tree.height ≤ 256)

/-- `<d> </d>`. -/
def documentWithSpace : Document where
  prolog := []
  root := .startElement ⟨"d", none, [], []⟩
  content := .node (.space (some " ")) .nil .nil
  epilog := []
  prologPlain := plain_nil
  rootStarts := rfl
  rootContent := by simp [Content, Event.Readable, StartTag.Proper.mk]

end Axis2C.Om
