import CableSwig.Lib.OrderedMap
import CableSwig.Lib.StdString
import CableSwig.Lib.Numerals
import CableSwig.Lib.StringReplace
import CableSwig.Lib.Fuel
import CableSwig.Lib.FallibleState
import CableSwig.Lib.Procedures
import CableSwig.Lib.PossibleOutcomes
import CableSwig.Lib.LinkedCells
import CableSwig.Lib.Interning
import CableSwig.Lib.SplayTree
import CableSwig.Lib.PostOrder
import CableSwig.Lib.BreadthFirst
import CableSwig.CxxTypes.Terms
import CableSwig.CxxTypes.TypeSystem
import CableSwig.CxxTypes.HashConsing
import CableSwig.CxxTypes.CanonicalTypes
import CableSwig.CxxTypes.DeclarationPrinter
import CableSwig.CxxTypes.DeclaratorGrammar
import CableSwig.CxxTypes.DeclaratorParser
import CableSwig.CxxTypes.DeclarationRoundTrip
import CableSwig.CxxTypes.Superclasses
import CableSwig.CxxTypes.Conversions
import CableSwig.GccXml.DumpQueue
import CableSwig.GccXml.DumpLoop
import CableSwig.GccXml.ReferencesDumped
import CableSwig.GccXml.OutputFunctions
import CableSwig.GccXml.IncompletePhase
import CableSwig.GccXml.TypeDump
import CableSwig.GccXml.EscapeString
import CableSwig.GccXml.FileQueue
import CableSwig.GccXml.TemplateParms
import CableSwig.GccXml.DeclarationDump
import CableSwig.GccXml.DeclarationAttributes
import CableSwig.Parsers.BasesAttribute
import CableSwig.Parsers.CarriedNumbers
import CableSwig.Parsers.QualifiedName
import CableSwig.Parsers.TypeReader
import CableSwig.Parsers.TypeReading
import CableSwig.Parsers.TypeRoundTrip
import CableSwig.Parsers.XmlSourceParser
import CableSwig.Parsers.ElementTable
import CableSwig.Parsers.ParseAgain
import CableSwig.Parsers.RepresentationBuilder
import CableSwig.Parsers.ElementReferences
import CableSwig.Parsers.ElementValues
import CableSwig.Parsers.ElementRequirements
import CableSwig.Parsers.NullUses
import CableSwig.Parsers.ConstructionSteps
import CableSwig.Parsers.ConstructionProcedures
import CableSwig.Parsers.ConstructionOrder
import CableSwig.Parsers.ReferenceCounting
import CableSwig.Parsers.DeclarationReading
import CableSwig.Parsers.TypeNodeReading
import CableSwig.Parsers.DumpTable
import CableSwig.Parsers.DumpReferences
import CableSwig.Parsers.DumpReading
import CableSwig.Parsers.DeclaredObjects
import CableSwig.Executables.ClassGraph
import CableSwig.Executables.SwigTree
import CableSwig.Executables.GroupModule
import CableSwig.Executables.WrappedBases
import CableSwig.Executables.NestedClasses
import CableSwig.Executables.ImportClosure
import CableSwig.Executables.IndexFile
import CableSwig.Executables.IndexRoundTrip
import CableSwig.Executables.TemplateName
import CableSwig.Executables.ReplacementLaws
import CableSwig.Executables.SwigTypeString
import CableSwig.Executables.ClassWrapping
import CableSwig.Executables.DumpWrapping
import CableSwig.Executables.GroupList
import CableSwig.Generators.CvTypeWriter
import CableSwig.Generators.TclGenerator
import CableSwig.Generators.DeclaredTypes
import CableSwig.GxFront.Configure
import CableSwig.GxFront.ConfigLines
import CableSwig.GxFront.SettingPrecedence
import CableSwig.GxFront.FlagsParser
import CableSwig.GxFront.FlagsBuffer
import CableSwig.GxFront.FindFlags
import CableSwig.GxFront.FlagsReport
import CableSwig.GxFront.FlagsRoundTrip
