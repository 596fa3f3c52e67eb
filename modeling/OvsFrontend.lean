import OvsFrontend.Generic.Search
import OvsFrontend.Generic.CrossFiller
import OvsFrontend.Generic.Merge
import OvsFrontend.Generic.NumberSort
import OvsFrontend.Generic.CleanObject
import OvsFrontend.Generic.Cookie
import OvsFrontend.Generic.FormatNumber
import OvsFrontend.Generic.ObjectEquals
import OvsFrontend.Generic.DeviceName
import OvsFrontend.Generic.ArrayEquals
import OvsFrontend.Containers.Disk
import OvsFrontend.Containers.FullPartitions
import OvsFrontend.Containers.GetPartitions
import OvsFrontend.Containers.Layout
import OvsFrontend.Generic.IpSort
import OvsFrontend.Generic.FormatBytes
import OvsFrontend.Generic.StringFormat
import OvsFrontend.Generic.CookieJar
import OvsFrontend.Generic.FormatPercentage
import OvsFrontend.Generic.StringifyOnce
import OvsFrontend.Generic.StrictArrays
import OvsFrontend.Generic.ChainPromises
import OvsFrontend.Generic.SortObject
import OvsFrontend.Generic.SetDecimals
import OvsFrontend.Generic.CookieStore
import OvsFrontend.Generic.Service
import OvsFrontend.Generic.Utf16
import OvsFrontend.Generic.Binary64
