import SchemaLang.Main
import SchemaLang.Options.OfData
import SchemaLang.Proofs.CanonicalType
import SchemaLang.Proofs.Data.OfSchema
import SchemaLang.Proofs.Declaration.Duplicates
import SchemaLang.Proofs.Formatting
import SchemaLang.Proofs.Inheritance.Conflicts
import SchemaLang.Proofs.Inheritance.Extension
import SchemaLang.Proofs.Inheritance.Rearrangement
import SchemaLang.Proofs.Inheritance.Revisiting
import SchemaLang.Proofs.Layout
import SchemaLang.Proofs.Origin
import SchemaLang.Proofs.Outline.Nesting
import SchemaLang.Proofs.RoundTrip.Reading
import SchemaLang.Proofs.Outline.Margins
import SchemaLang.Proofs.Outline.Shape
import SchemaLang.Proofs.References
import SchemaLang.Proofs.Reserving
import SchemaLang.Proofs.TypeMentions
import SchemaLang.Proofs.Inheritance.LogLines
import SchemaLang.Proofs.Rendering.Outlined
import SchemaLang.Proofs.Rendering.Paths
